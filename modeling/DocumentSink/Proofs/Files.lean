import DocumentSink.Proofs.Markup
import DocumentSink.Store.Config

/-!
Files over runs of saves. A save makes directories where nothing was and touches one file, and that
one only if the definition can be written. What it writes has no carriage return, so the text comes
back from its octets character by character. Main statement: a file loads as the text of what was
saved there last, whatever saves failed before or after.
-/

namespace DocumentSink

namespace FilePath

theorem parents_concat {dir : FilePath} (h : dir ≠ []) (name : FileName) :
    parents (dir ++ [name]) = parents dir ++ [dir] := by
  induction dir with
  | nil => exact absurd rfl h
  | cons a dir ih =>
      cases dir with
      | nil => rfl
      | cons b dir =>
          have hrest := ih (List.cons_ne_nil b dir)
          change [a] :: (parents (b :: dir ++ [name])).map (a :: ·) = _
          rw [hrest, List.map_append]
          rfl

/-- The directories that a path leads through lead to its own directory, or are it. -/
theorem parents_subset (p : FilePath) : p.parents ⊆ parents p.dropLast ++ [p.dropLast] := by
  rcases List.eq_nil_or_concat p with rfl | ⟨dir, name, rfl⟩
  · exact List.nil_subset _
  · rw [List.concat_eq_append, List.dropLast_concat]
    by_cases hdir : dir = []
    · rw [hdir]
      exact List.nil_subset _
    · rw [parents_concat hdir]
      exact List.Subset.refl _

/-- Beside the top directory, no others do. -/
theorem mem_parents_of_dropLast {p d : FilePath} (hd : d ∈ parents p.dropLast ++ [p.dropLast]) :
    d = [] ∨ d ∈ p.parents := by
  rcases List.eq_nil_or_concat p with rfl | ⟨dir, name, rfl⟩
  · exact .inl (List.mem_singleton.1 hd)
  · rw [List.concat_eq_append, List.dropLast_concat] at hd
    rw [List.concat_eq_append]
    by_cases hdir : dir = []
    · rw [hdir] at hd
      exact .inl (List.mem_singleton.1 hd)
    · rw [parents_concat hdir]
      exact .inr hd

theorem length_lt_of_mem_parents {p d : FilePath} (h : d ∈ p.parents) : d.length < p.length := by
  induction p generalizing d with
  | nil => cases h
  | cons a p ih =>
      cases p with
      | nil => cases h
      | cons b p =>
          rw [parents, List.mem_cons, List.mem_map] at h
          · rcases h with rfl | ⟨d, hd, rfl⟩
            · simp
            · exact Nat.succ_lt_succ (ih hd)
          · exact nofun

end FilePath

namespace Files

variable {fs fs' : Files} {p q : FilePath} {octets : List UInt8}

theorem entry?_put_self (fs : Files) (hp : p ≠ []) (e : FileEntry) :
    entry? (fs.put p e) p = some e := by
  have hold : (fs.entries.filter fun q => q.1 ≠ p).find? (fun e => e.1 = p) = none := by
    rw [List.find?_eq_none]
    intro q hq
    simpa using (List.mem_filter.1 hq).2
  rw [ entry?, if_neg (by simpa using hp), put, List.find?_append, hold]
  simp

theorem entry?_put_ne (fs : Files) (h : q ≠ p) (e : FileEntry) :
    entry? (fs.put p e) q = fs.entry? q := by
  have hnew : [(p, e)].find? (fun e => e.1 = q) = none := by simp [Ne.symm h]
  have hold : (fs.entries.filter fun e => e.1 ≠ p).find? (fun e => e.1 = q) =
      fs.entries.find? fun e => e.1 = q := by
    rw [List.find?_filter]
    congr 1
    funext e
    by_cases he : e.1 = q <;> simp [he, h]
  rw [ entry?, put, List.find?_append, hnew, hold, Option.or_none, entry?]

/-- Directories are made where nothing is, and nothing else changes. -/
theorem entry?_makeDirectory (h : fs.makeDirectory p = .ok fs') (q : FilePath) :
    fs'.entry? q =
      (fs.entry? q).or (if q ∈ p.parents ++ [p] then some .directory else none) := by
  have hmake (ds : List FilePath) (fs : Files) :
      entry? (ds.foldl (fun fs d => if (fs.entry? d).isSome then fs else fs.put d .directory) fs) q =
        (fs.entry? q).or (if q ∈ ds then some .directory else none) := by
    induction ds generalizing fs with
    | nil => simp
    | cons d ds ih =>
        rw [List.foldl_cons, ih]
        by_cases hd : q = d
        · subst hd
          cases hq : fs.entry? q with
          | some e => simp [hq]
          | none =>
              have hne : q ≠ [] := by
                rintro rfl
                cases hq
              simp [entry?_put_self fs hne]
        · split
          · simp [hd]
          · simp [entry?_put_ne fs hd, hd]
  rw [makeDirectory] at h
  split at h
  · cases h
  · split at h
    · cases h
    · cases h
      exact hmake _ fs

/-- A path has what it had, or has become a directory where nothing was. -/
def KeptAt (fs fs' : Files) (p : FilePath) : Prop :=
  fs'.entry? p = fs.entry? p ∨ fs.entry? p = none ∧ fs'.entry? p = some .directory

theorem KeptAt.refl (fs : Files) (p : FilePath) : KeptAt fs fs p := .inl rfl

theorem KeptAt.trans {fs'' : Files} (h : KeptAt fs fs' p) (h' : KeptAt fs' fs'' p) :
    KeptAt fs fs'' p := by
  rcases h with h | ⟨hnone, h⟩
  · rw [KeptAt, ← h]
    exact h'
  · rcases h' with h' | ⟨hnone', -⟩
    · exact .inr ⟨hnone, h'.trans h⟩
    · rw [h] at hnone'
      cases hnone'

/-- In particular it is the file that it was. -/
theorem KeptAt.file_iff (h : KeptAt fs fs' p) :
    fs'.entry? p = some (.file octets) ↔ fs.entry? p = some (.file octets) := by
  rcases h with h | ⟨hnone, h⟩
  · rw [h]
  · rw [h, hnone]
    constructor
    · intro h
      cases h
    · intro h
      cases h

theorem KeptAt.isFile (h : KeptAt fs fs' p) : fs'.isFile p = fs.isFile p := by
  rcases h with h | ⟨hnone, h⟩
  · rw [Files.isFile, Files.isFile, h]
  · rw [Files.isFile, Files.isFile, h, hnone]

theorem keptAt_makeDirectory (h : fs.makeDirectory p = .ok fs') (q : FilePath) :
    KeptAt fs fs' q := by
  have hq := entry?_makeDirectory h q
  cases he : fs.entry? q with
  | some e =>
      rw [he] at hq
      exact .inl (hq.trans he.symm)
  | none =>
      rw [he, Option.none_or] at hq
      split at hq
      · exact .inr ⟨he, hq⟩
      · exact .inl (hq.trans he.symm)

theorem read_eq_ok : fs.read p = .ok octets ↔ fs.entry? p = some (.file octets) := by
  rw [read]
  split
  · next he => simp [he]
  · next he => simp [he]
  · next he =>
      rw [he]
      split <;> simp

theorem write_eq_ok : fs.write p octets = .ok fs' ↔
    (fs.entry? p ≠ some .directory ∧ (∀ d ∈ p.parents, fs.isFile d = false) ∧
      ∀ d ∈ p.parents, (fs.entry? d).isSome) ∧ fs' = fs.put p (.file octets) := by
  rw [write]
  split
  · next hd => simp [hd]
  · next hd =>
      split
      · next hf =>
          rw [List.any_eq_true] at hf
          obtain ⟨d, hd, hfile⟩ := hf
          constructor
          · intro h
            cases h
          · rintro ⟨⟨-, hnone, -⟩, -⟩
            rw [hnone d hd] at hfile
            cases hfile
      · next hf =>
          have hnone : ∀ d ∈ p.parents, fs.isFile d = false := by simpa using hf
          split
          · next hall =>
              rw [Except.ok.injEq, eq_comm]
              exact ⟨fun h => ⟨⟨hd, hnone, List.all_eq_true.1 hall⟩, h⟩, fun h => h.2⟩
          · next hall =>
              constructor
              · intro h
                cases h
              · rintro ⟨⟨-, -, hsome⟩, -⟩
                exact absurd (List.all_eq_true.2 hsome) hall

/-- A file can be put at a path: no directory is there, and the path leads through no file. -/
def Takes (fs : Files) (p : FilePath) : Prop :=
  fs.entry? p ≠ some .directory ∧ ∀ d ∈ p.parents, fs.isFile d = false

theorem exists_makeDirectory (h : fs.Takes p) : ∃ fs', fs.makeDirectory p.dropLast = .ok fs' := by
  have hnone : ∀ d ∈ FilePath.parents p.dropLast ++ [p.dropLast], fs.isFile d = false := by
    intro d hd
    rcases FilePath.mem_parents_of_dropLast hd with rfl | hd
    · rfl
    · exact h.2 d hd
  rw [List.forall_mem_append, List.forall_mem_singleton] at hnone
  have hany : (FilePath.parents p.dropLast).any fs.isFile = false := by simpa using hnone.1
  rw [makeDirectory, hany, hnone.2]
  exact ⟨_, rfl⟩

/-- Behind the making of its directory, a path takes a file exactly if it did before. -/
theorem write_eq_ok_of_makeDirectory (h : fs.makeDirectory p.dropLast = .ok fs') {fs'' : Files} :
    fs'.write p octets = .ok fs'' ↔ fs.Takes p ∧ fs'' = fs'.put p (.file octets) := by
  have hsome : ∀ d ∈ p.parents, (fs'.entry? d).isSome := by
    intro d hd
    rw [entry?_makeDirectory h, if_pos (FilePath.parents_subset p hd)]
    cases fs.entry? d <;> rfl
  have hfile : (∀ d ∈ p.parents, fs'.isFile d = false) ↔ ∀ d ∈ p.parents, fs.isFile d = false := by
    apply forall₂_congr
    intro d _
    rw [(keptAt_makeDirectory h d).isFile]
  have hentry : fs'.entry? p = fs.entry? p := by
    rw [entry?_makeDirectory h]
    by_cases hp : p ∈ FilePath.parents p.dropLast ++ [p.dropLast]
    · rcases FilePath.mem_parents_of_dropLast hp with rfl | hp
      · rfl
      · exact absurd (FilePath.length_lt_of_mem_parents hp) (Nat.lt_irrefl _)
    · rw [if_neg hp, Option.or_none]
  rw [write_eq_ok, hfile, hentry, Takes]
  exact and_congr_left' ⟨fun h => ⟨h.1, h.2.1⟩, fun h => ⟨h.1, h.2, hsome⟩⟩

end Files

namespace Markup

/-- A written text has no carriage return in it, and no character that UTF-8 writes with a zero. -/
theorem decode_of_write {d : Definition} {text : String} (h : write d = .ok text) :
    decode (.ofChars (Text.lineFeeds text.toList)) = read text := by
  obtain ⟨hcarried, rfl⟩ := write_eq_ok.1 h
  have hcoded := Step.coded_ofDefinition d
  have hplain := Xml.isPlain_write 0 _ (writable_tree hcoded hcarried)
  have hreturn : '\r' ∉ Xml.write 0 (tree (.ofDefinition d)) := fun hr => (hplain _ hr).2 rfl
  rw [String.toList_ofList, Text.lineFeeds_of_no_return hreturn,
    decode_of_no_null (null_not_mem_write hcoded hcarried)]

end Markup

namespace ConfigStore

open Files (KeptAt)

variable {s : ConfigStore} {p : FilePath} {d : Definition}

/-- A file with the octets of a definition. -/
def Holds (s : ConfigStore) (p : FilePath) (d : Definition) : Prop :=
  ∃ text, Markup.write d = .ok text ∧ s.files.entry? p = some (.file (Utf8.encode text.toList))

/-- A file that holds a definition loads as its text does. -/
theorem loadMarkup_of_holds (h : s.Holds p d) : ∃ text, Markup.write d = .ok text ∧
    s.files.read p = .ok (Utf8.encode text.toList) ∧
      s.loadMarkup p = (Markup.read text).mapError .markup := by
  obtain ⟨text, hwrite, hentry⟩ := h
  have hread := Files.read_eq_ok.2 hentry
  refine ⟨text, hwrite, hread, ?_⟩
  rw [loadMarkup, hread, mapError_ok, ok_bind, Utf8.decode_encode, mapError_ok, ok_bind,
    Markup.decode_of_write hwrite]

/-- A save succeeds with the file written, or leaves every file as it is. -/
theorem saveMarkup_spec (s : ConfigStore) (p : FilePath) (d : Definition) :
    ((s.saveMarkup p d).2 = .ok () ∧ s.files.Takes p ∧ (s.saveMarkup p d).1.Holds p d ∧
      ∀ q, q ≠ p → KeptAt s.files (s.saveMarkup p d).1.files q) ∨
    (∃ fault, (s.saveMarkup p d).2 = .error fault) ∧
      ¬ (s.files.Takes p ∧ ∃ text, Markup.write d = .ok text) ∧
      ∀ q, KeptAt s.files (s.saveMarkup p d).1.files q := by
  rw [saveMarkup]
  cases hmake : s.files.makeDirectory p.dropLast with
  | error fault =>
      refine .inr ⟨⟨_, rfl⟩, ?_, KeptAt.refl s.files⟩
      rintro ⟨htakes, -⟩
      obtain ⟨files, hfiles⟩ := Files.exists_makeDirectory htakes
      rw [hmake] at hfiles
      cases hfiles
  | ok files =>
      have hkept := Files.keptAt_makeDirectory hmake
      have hput {octets : List UInt8} {files' : Files} : files.write p octets = .ok files' ↔
          s.files.Takes p ∧ files' = files.put p (.file octets) :=
        Files.write_eq_ok_of_makeDirectory hmake
      cases hwrite : Markup.write d with
      | error fault => exact .inr ⟨⟨_, rfl⟩, by simp, hkept⟩
      | ok text =>
          dsimp only
          cases hfile : files.write p (Utf8.encode text.toList) with
          | error fault =>
              refine .inr ⟨⟨_, rfl⟩, ?_, hkept⟩
              rintro ⟨htakes, -⟩
              rw [hput.2 ⟨htakes, rfl⟩] at hfile
              cases hfile
          | ok files' =>
              obtain ⟨htakes, rfl⟩ := hput.1 hfile
              have hne : p ≠ [] := by
                rintro rfl
                exact htakes.1 rfl
              refine .inl ⟨rfl, htakes, ⟨text, hwrite, Files.entry?_put_self files hne _⟩, ?_⟩
              intro q hq
              rw [KeptAt, Files.entry?_put_ne files hq]
              exact hkept q

/-- Saves one after another, also behind one that fails, and the answer to each. -/
def saveFiles (s : ConfigStore) :
    List (FilePath × Definition) → ConfigStore × List (Except SaveFault Unit)
  | [] => (s, [])
  | (p, d) :: saves =>
    let (s, answer) := s.saveMarkup p d
    let (s, answers) := saveFiles s saves
    (s, answer :: answers)

/-- The definition of the last save to a path that succeeded. -/
def lastFiled (p : FilePath) :
    List (FilePath × Definition) → List (Except SaveFault Unit) → Option Definition
  | (q, d) :: saves, .ok () :: answers =>
    (lastFiled p saves answers).or (if q = p then some d else none)
  | _ :: saves, .error _ :: answers => lastFiled p saves answers
  | _, _ => none

/-- After a run a path has the file of what was saved last there, or else what it had. -/
theorem holds_saveFiles (s : ConfigStore) (saves : List (FilePath × Definition)) (p : FilePath) :
    (∀ d, lastFiled p saves (s.saveFiles saves).2 = some d → (s.saveFiles saves).1.Holds p d) ∧
      (lastFiled p saves (s.saveFiles saves).2 = none →
        KeptAt s.files (s.saveFiles saves).1.files p) := by
  induction saves generalizing s with
  | nil =>
      refine ⟨?_, fun _ => .refl s.files p⟩
      intro d h
      cases h
  | cons save saves ih =>
      obtain ⟨q, d⟩ := save
      obtain ⟨hlast, hkept⟩ := ih (s.saveMarkup q d).1
      rw [saveFiles]
      dsimp only
      rcases saveMarkup_spec s q d with ⟨hok, -, hholds, hothers⟩ | ⟨⟨fault, herror⟩, -, hall⟩
      · rw [hok, lastFiled]
        cases hrest : lastFiled p saves ((s.saveMarkup q d).1.saveFiles saves).2 with
        | some d' => exact ⟨fun _ h => by cases h; exact hlast _ hrest, nofun⟩
        | none =>
            rw [Option.none_or]
            by_cases hq : q = p
            · subst hq
              rw [if_pos rfl]
              refine ⟨?_, nofun⟩
              rintro _ ⟨⟩
              obtain ⟨text, hwrite, hentry⟩ := hholds
              exact ⟨text, hwrite, (hkept hrest).file_iff.2 hentry⟩
            · rw [if_neg hq]
              refine ⟨?_, fun _ => (hothers p (Ne.symm hq)).trans (hkept hrest)⟩
              intro d' h
              cases h
      · rw [herror, lastFiled]
        exact ⟨hlast, fun hnone => (hall p).trans (hkept hnone)⟩

/-- After any saves, a file loads as the text of the definition that was saved there last, and a
path where no save succeeded has what it had, but for directories where nothing was. The next save
succeeds exactly if the path takes a file and the definition can be written; if it fails, every path
has what it had. -/
theorem loadMarkup_saveFiles (s : ConfigStore) (saves : List (FilePath × Definition)) :
    let reached := (s.saveFiles saves).1
    let answers := (s.saveFiles saves).2
    (∀ p d, lastFiled p saves answers = some d → ∃ text, Markup.write d = .ok text ∧
      reached.files.read p = .ok (Utf8.encode text.toList) ∧
        reached.loadMarkup p = (Markup.read text).mapError .markup) ∧
    (∀ p, lastFiled p saves answers = none → KeptAt s.files reached.files p) ∧
    ∀ p d, ((reached.saveMarkup p d).2 = .ok () ↔
        reached.files.Takes p ∧ ∃ text, Markup.write d = .ok text) ∧
      ∀ fault, (reached.saveMarkup p d).2 = .error fault →
        ∀ q, KeptAt reached.files (reached.saveMarkup p d).1.files q := by
  intro reached answers
  refine ⟨?_, fun p => (holds_saveFiles s saves p).2, ?_⟩
  · intro p d hlast
    exact loadMarkup_of_holds ((holds_saveFiles s saves p).1 d hlast)
  · intro p d
    rcases saveMarkup_spec reached p d with ⟨hok, htakes, hholds, -⟩ | ⟨⟨fault, herror⟩, hnot, hall⟩
    · obtain ⟨text, hwrite, -⟩ := hholds
      rw [hok]
      exact ⟨⟨fun _ => ⟨htakes, text, hwrite⟩, fun _ => rfl⟩, nofun⟩
    · rw [herror]
      exact ⟨⟨nofun, fun h => absurd h hnot⟩, fun _ _ => hall⟩

/-- Line ends of three kinds, in options and in a field. -/
def returning : Definition where
  write := { collection := "a\r\nb\r", dbName := "\n" }
  mappings := [{ incomingName := "\r" }]

/-- An option with a character that markup cannot carry. -/
def unwritable : Definition := { write := { collection := "bad\x01name" } }

/-- Behind the save that succeeds, one at the same path that cannot be written, one below the file,
one at its directory, and one that cannot be written at a file that was there before. -/
def haltedSaves : List (FilePath × Definition) :=
  let a : FilePath := [⟨"dir", by decide⟩, ⟨"a.xml", by decide⟩]
  [(a, returning), (a, unwritable), (a ++ [⟨"b.xml", by decide⟩], returning),
    ([⟨"dir", by decide⟩], returning), ([⟨"old.xml", by decide⟩], unwritable)]

theorem loadMarkup_saveFiles_halted :
    let a : FilePath := [⟨"dir", by decide⟩, ⟨"a.xml", by decide⟩]
    let old : FilePath := [⟨"old.xml", by decide⟩]
    let new : FilePath := [⟨"new.xml", by decide⟩]
    let s : ConfigStore := { files := ⟨[(old, .file [0xFF])]⟩ }
    let reached := (s.saveFiles haltedSaves).1
    (∃ text, Markup.write returning = .ok text ∧
      reached.loadMarkup a = (Markup.read text).mapError .markup) ∧
    reached.files.read old = .ok [0xFF] ∧
    (reached.saveMarkup new returning).2 = .ok () ∧
    (reached.saveMarkup new unwritable).2 =
      .error (.markup ⟨"mongo_collection", '\x01'⟩) ∧
    (reached.saveMarkup new unwritable).1.files.entry? old =
      some (.file [0xFF]) := by
  intro a old new s reached
  obtain ⟨hlast, hnone, hnext⟩ := loadMarkup_saveFiles s haltedSaves
  obtain ⟨text, hwrite, -, hload⟩ := hlast a returning (by decide +kernel)
  have hold : reached.files.entry? old = some (.file [0xFF]) :=
    (hnone old (by decide +kernel)).file_iff.2 rfl
  have htakes : reached.files.Takes new := by
    unfold Files.Takes
    decide +kernel
  have hrefused : (reached.saveMarkup new unwritable).2 =
      .error (.markup ⟨"mongo_collection", '\x01'⟩) := by
    decide +kernel
  have hkept := (hnext new unwritable).2 _ hrefused old
  exact ⟨⟨text, hwrite, hload⟩, Files.read_eq_ok.2 hold,
    (hnext new returning).1.2 ⟨htakes, text, hwrite⟩, hrefused, hkept.file_iff.2 hold⟩

end ConfigStore

end DocumentSink
