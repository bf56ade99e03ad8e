import DocumentSink.Proofs.Markup
import DocumentSink.Proofs.Xml.Characters

/-!
Saving what was loaded. Markup that is read holds no text that markup cannot carry, and neither does
a definition that comes from it, but for what its password concealed; and it is settled, for the
retry options have their defaults by then and a restored password begins with no NUL. Main
statement: a definition that was read from markup is written again, and comes back the same.
-/

namespace DocumentSink

namespace Password

variable {stored password : String}

theorem isChar_digitChar : ∀ d, d < 16 → Xml.isChar (Nat.digitChar d) = true := by decide

/-- Whatever a password holds, its concealed form is plain. -/
theorem carried_conceal (password : String) : Xml.Carried (conceal password).toList := by
  rw [conceal]
  split
  · exact .nil
  · have hmark : Xml.Carried mark := by decide
    obtain ⟨d, ds, hdigits, hlt, -⟩ := Numeral.toDigits_eq_map (show 1 < 16 by decide)
      (ofOctets (Utf8.encode password.toList) ^^^ seed)
    rw [String.toList_ofList]
    refine hmark.append ?_
    intro c hc
    rw [concealed, hdigits, List.mem_map] at hc
    obtain ⟨e, he, rfl⟩ := hc
    exact isChar_digitChar e (hlt e he)

theorem carried_store (h : Variables.hasReferences password → Xml.Carried password.toList) :
    Xml.Carried (store password).toList := by
  rw [store]
  split
  · next href => exact h href
  · exact carried_conceal password

/-- A password that was restored comes back the same. -/
theorem settled_of_restore (hstored : Xml.Carried stored.toList)
    (h : restore stored = .ok password) : settled password = password := by
  rw [restore] at h
  split at h
  · have hdrop := dropWhile_of_reveal h
    rw [settled, hdrop, String.ofList_toList, ite_self]
  · cases h
    apply settled_of_head
    intro hhead
    have hnul := hstored '\x00' (List.mem_of_head? hhead)
    revert hnul
    decide

end Password

namespace Step

open Markup (Carried)

theorem carried_flagToken (b : Bool) : Xml.Carried (flagToken b).toList := by cases b <;> decide

theorem carried_operator (o : Operator) : Xml.Carried o.token.toList := by cases o <;> decide

theorem carried_policy (p : ApplyPolicy) : Xml.Carried p.token.toList := by cases p <;> decide

section Content

theorem carried_ofWriteOptions {w : WriteOptions}
    (hpassword : Xml.Carried (Password.store w.password).toList)
    (htexts : ∀ o : TextOption, o ≠ .password → Xml.Carried (o.get w).toList) :
    Carried (ofWriteOptions w) := by
  intro p hp
  obtain ⟨⟨o, isOptional⟩, -, hp⟩ := List.mem_filterMap.1 hp
  dsimp only at hp
  split at hp
  · cases hp
  · cases hp
    cases o with
    | flag o => exact carried_flagToken _
    | text o =>
        by_cases ho : o = .password
        · rw [ho]
          exact hpassword
        · have ht := htexts o ho
          cases o <;> first | exact ht | exact absurd rfl ho

theorem carried_ofMapping {m : FieldMapping} (hname : Xml.Carried m.incomingName.toList)
    (hpath : Xml.Carried m.documentPath.toList) : Carried (ofMapping m) := by
  intro p hp
  obtain ⟨part, -, rfl⟩ := List.mem_map.1 hp
  cases part with
  | incomingName => exact hname
  | documentPath => exact hpath
  | useIncomingName => exact carried_flagToken _
  | isMatchKey => exact carried_flagToken _
  | operator => exact carried_operator _
  | policy => exact carried_policy _
  | isFragment => exact carried_flagToken _

theorem carried_ofIndex {i : IndexSpec} (hspec : Xml.Carried i.fieldSpec.toList) :
    Carried (ofIndex i) := by
  intro p hp
  obtain ⟨part, -, rfl⟩ := List.mem_map.1 hp
  cases part with
  | fieldSpec => exact hspec
  | drop => exact carried_flagToken _
  | unique => exact carried_flagToken _
  | sparse => exact carried_flagToken _

end Content

section Loading

variable {r : Record String} {w : WriteOptions}

theorem carried_of_get? {code s : String} (hr : Carried r) (h : r.get? code = some s) :
    Xml.Carried s.toList := hr _ (Record.mem_of_get? h)

theorem carried_textAt (hr : Carried r) (code : String) : Xml.Carried (textAt r code).toList := by
  rw [textAt]
  cases h : r.get? code with
  | none => exact .nil
  | some s => exact carried_of_get? hr h

theorem carried_orDefault {s default : String} (hs : Xml.Carried s.toList)
    (hdefault : Xml.Carried default.toList) : Xml.Carried (orDefault s default).toList := by
  rw [orDefault]
  split
  · exact hdefault
  · exact hs

theorem carried_loadedText (hr : Carried r) (o : TextOption) :
    Xml.Carried (loadedText r o).toList := by
  have ht := carried_textAt hr o.code
  cases o with
  | writeRetries => exact carried_orDefault ht (by decide)
  | writeRetryDelay => exact carried_orDefault ht (by decide)
  | _ => exact ht

theorem loadWriteOptions_eq_ok (h : loadWriteOptions r = .ok w) :
    ∃ password, Password.restore (textAt r TextOption.password.code) = .ok password ∧
      w = WriteOption.all.foldl (loadOption r password) {} := by
  simp only [loadWriteOptions, bind_eq_ok, mapError_eq_ok] at h
  obtain ⟨_, -, password, hpassword, h⟩ := h
  cases h
  exact ⟨password, hpassword, rfl⟩

theorem carried_of_loadWriteOptions (hr : Carried r) (h : loadWriteOptions r = .ok w)
    (hp : Variables.hasReferences w.password → Xml.Carried w.password.toList) :
    Carried (ofWriteOptions w) := by
  refine carried_ofWriteOptions (Password.carried_store hp) ?_
  intro o ho
  obtain ⟨password, -, rfl⟩ := loadWriteOptions_eq_ok h
  rw [get_loaded_text, if_neg ho]
  exact carried_loadedText hr o

theorem orDefault_orDefault (s default : String) :
    orDefault (orDefault s default) default = orDefault s default := by
  cases hs : s.isEmpty <;> simp [orDefault, hs]

theorem settledOptions_of_load (hr : Carried r) (h : loadWriteOptions r = .ok w) :
    settledOptions w = w := by
  obtain ⟨password, hpassword, rfl⟩ := loadWriteOptions_eq_ok h
  apply WriteOptions.ext_get
  · intro o
    cases o with
    | password => exact Password.settled_of_restore (carried_textAt hr _) hpassword
    | writeRetries => exact orDefault_orDefault _ _
    | writeRetryDelay => exact orDefault_orDefault _ _
    | _ => rfl
  · intro o
    cases o <;> rfl

theorem carried_of_loadField {n : Nat} {m : FieldMapping} (hr : Carried r)
    (h : loadField n r = .ok m) : Carried (ofMapping m) := by
  simp only [loadField, bind_eq_ok] at h
  obtain ⟨operator, -, policy, -, h⟩ := h
  split at h
  · cases h
  · next name hname =>
      cases h
      exact carried_ofMapping (carried_of_get? hr hname) (carried_textAt hr _)

theorem carried_of_loadFields {n : Nat} {rs : List (Record String)} {ms : List FieldMapping}
    (hrs : ∀ r ∈ rs, Carried r) (h : loadFields n rs = .ok ms) :
    ∀ m ∈ ms, Carried (ofMapping m) := by
  induction rs generalizing n ms with
  | nil =>
      cases h
      exact List.forall_mem_nil _
  | cons r rs ih =>
      simp only [loadFields, bind_eq_ok] at h
      obtain ⟨m, hm, ms, hms, h⟩ := h
      cases h
      obtain ⟨hr, hrs⟩ := List.forall_mem_cons.1 hrs
      exact List.forall_mem_cons.2 ⟨carried_of_loadField hr hm, ih hrs hms⟩

theorem carried_of_loadIndex {i : IndexSpec} (hr : Carried r) (h : loadIndex r = .ok i) :
    Carried (ofIndex i) := by
  rw [loadIndex] at h
  split at h
  · cases h
  · next spec hspec =>
      cases h
      exact carried_ofIndex (carried_of_get? hr hspec)

/-- Content that markup can carry stands for a definition that it can carry, and that is settled. -/
theorem carried_of_definition {s : Step} {d : Definition} (hs : Markup.StepCarried s)
    (h : s.definition = .ok d)
    (hp : Variables.hasReferences d.write.password → Xml.Carried d.write.password.toList) :
    Markup.StepCarried (ofDefinition d) ∧ settled d = d := by
  simp only [definition, bind_eq_ok] at h
  obtain ⟨w, hw, ms, hms, is, his, h⟩ := h
  cases h
  refine ⟨⟨carried_of_loadWriteOptions hs.options hw hp, ?_, ?_⟩, ?_⟩
  · intro r hr
    obtain ⟨m, hm, rfl⟩ := List.mem_map.1 hr
    exact carried_of_loadFields hs.fields hms m hm
  · intro r hr
    obtain ⟨i, hi, rfl⟩ := List.mem_map.1 hr
    obtain ⟨r, hr, hload⟩ := exists_of_mapM_eq_ok his hi
    exact carried_of_loadIndex (hs.indexes r hr) hload
  · rw [settled, settledOptions_of_load hs.options hw]

end Loading

end Step

namespace Markup

open Xml (Element)

variable {e : Element}

theorem carried_texts (h : e.Carried) : Carried (texts e) := by
  intro p hp
  obtain ⟨c, hc, rfl⟩ := List.mem_map.1 hp
  exact (h.children c (List.mem_of_mem_filter hc)).text

theorem carried_entriesOf (h : e.Carried) (tag entryTag : String) :
    ∀ r ∈ (entriesOf tag entryTag e).map texts, Carried r := by
  rw [entriesOf]
  cases hg : e.child? tag with
  | none => exact List.forall_mem_nil _
  | some g =>
      have hgroup := h.children g (List.mem_of_find?_eq_some hg)
      intro r hr
      obtain ⟨c, hc, rfl⟩ := List.mem_map.1 hr
      exact carried_texts (hgroup.children c (List.mem_of_mem_filter hc))

theorem carried_toStep (h : e.Carried) : StepCarried (toStep e) :=
  ⟨carried_texts h, carried_entriesOf h _ _, carried_entriesOf h _ _⟩

/-- The step that a definition was read from. -/
theorem exists_of_read {text : String} {d : Definition} (h : read text = .ok d) :
    ∃ root e, Xml.read text.toList = some root ∧ root.find? stepTag = some e ∧
      (toStep e).definition = .ok d := by
  cases hroot : Xml.read text.toList with
  | none =>
      rw [read, hroot] at h
      cases h
  | some root =>
      rw [read_of_root hroot, outcome] at h
      cases he : root.find? stepTag with
      | none =>
          rw [he] at h
          cases h
      | some e =>
          rw [he] at h
          exact ⟨root, e, rfl, he, mapError_eq_ok.1 h⟩

/-- A definition that was read from markup, in whatever form, can be written as markup and comes
back the same, unless its password refers to variables and either looks concealed or holds a
character that markup cannot carry. -/
theorem write_of_read {text : String} {d : Definition} (h : read text = .ok d)
    (hp : ¬ (Variables.hasReferences d.write.password = true ∧
      (Password.mark.isPrefixOf d.write.password.toList = true ∨
        ∃ c ∈ d.write.password.toList, Xml.isChar c = false))) :
    ∃ text', write d = .ok text' ∧ read text' = .ok d := by
  have hmistakable : Password.isMistakable d.write.password = false := by
    rw [Password.isMistakable, Bool.and_eq_false_iff, ← Bool.not_eq_true, ← Bool.not_eq_true,
      ← not_and_or]
    exact fun hboth => hp ⟨hboth.2, .inl hboth.1⟩
  have hpassword : Variables.hasReferences d.write.password →
      Xml.Carried d.write.password.toList := by
    intro href c hc
    by_contra hchar
    exact hp ⟨href, .inr ⟨c, hc, Bool.eq_false_iff.2 hchar⟩⟩
  obtain ⟨root, e, hroot, he, hdefinition⟩ := exists_of_read h
  have hcarried := carried_toStep ((Xml.carried_of_read hroot).find? he)
  obtain ⟨hwritten, hsettled⟩ := Step.carried_of_definition hcarried hdefinition hpassword
  have hwrite := write_eq_ok.2 ⟨hwritten, rfl⟩
  have hread := read_written hmistakable hwrite
  rw [hsettled] at hread
  exact ⟨_, hwrite, hread⟩

/-- An entity, a comment, a step below the root, flags that are blank, empty or in lower case,
options in another order or missing, and a clear password in a quoted section and a number. -/
def legacy : String :=
  "<!DOCTYPE job [<!ENTITY h 'a&#46;b'>]>\r\n<job><!-- old --><step><truncate/><multi> </multi>" ++
  "<upsert>y</upsert><modifier_update>n</modifier_update><mongo_host>&h;</mongo_host>" ++
  "<mongo_password><![CDATA[<&]]>&#x9;k</mongo_password></step></job>"

def recovered : Definition where
  write := {
    hostnames := "a.b", port := "", password := "<&\tk", upsert := true, batchInsertSize := ""
    readPreference := "" }

theorem write_of_read_legacy :
    read legacy = .ok recovered ∧
      ∃ text, write recovered = .ok text ∧ read text = .ok recovered := by
  have hread : read legacy = .ok recovered := by decide +kernel
  have href : Variables.hasReferences recovered.write.password = false := by decide +kernel
  refine ⟨hread, write_of_read hread ?_⟩
  rintro ⟨hboth, -⟩
  rw [href] at hboth
  exact Bool.false_ne_true hboth

end Markup

end DocumentSink
