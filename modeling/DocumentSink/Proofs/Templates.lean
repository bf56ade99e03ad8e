import DocumentSink.Message.Template
import DocumentSink.Proofs.Except
import Mathlib.Data.List.TakeDrop
import Mathlib.Data.List.TakeWhile

/-!
How templates are written and what they are filled in to. A template is written in pieces:
characters, of which braces are doubled, and fields with a name, a conversion and a layout. Main
statements: a template is filled in exactly where it is so written and each of its fields has a
value that can be laid out; and without arguments exactly where it is a text with each brace
doubled.
-/

namespace DocumentSink.Message

/-- Names: every bracket is closed, and outside of brackets there is no character that would end the
name or open a field. The first argument says whether a bracket is open. -/
inductive Named : Bool → Wide → Prop
  | nil : Named false []
  | within {c name} : Named (c ≠ .char ']') name → Named true (c :: name)
  | outside {c name} : c ∉ [.char '\x7b', .char '\x7d', .char ':', .char '!'] →
      Named (c = .char '[') name →
      Named false (c :: name)

/-- Texts in which no brace is closed but those opened before, of which there are as many as the
first argument says, and these all are. -/
inductive Balanced : Nat → Wide → Prop
  | nil : Balanced 0 []
  | opening {n s} : Balanced (n + 1) s → Balanced n (.char '\x7b' :: s)
  | closing {n s} : Balanced n s → Balanced (n + 1) (.char '\x7d' :: s)
  | other {n c s} : c ≠ .char '\x7b' → c ≠ .char '\x7d' → Balanced n s → Balanced n (c :: s)

/-- How a field is written between its braces. -/
inductive Field.Writes : Field → Wide → Prop
  | name {name} : Named false name → Writes { name } name
  | layout {name layout} : Named false name → Balanced 0 layout →
      Writes { name, layout } (name ++ .char ':' :: layout)
  | conversion {name c} : Named false name →
      Writes { name, conversion := some c } (name ++ [.char '!', c])
  | both {name c layout} : Named false name → Balanced 0 layout →
      Writes { name, conversion := some c, layout } (name ++ .char '!' :: c :: .char ':' :: layout)

/-- How pieces are written: braces that are text are doubled, and fields stand between braces. -/
inductive Writes : List Piece → Wide → Prop
  | nil : Writes [] []
  | char {c ps s} : c ≠ .char '\x7b' → c ≠ .char '\x7d' → Writes ps s →
      Writes (.char c :: ps) (c :: s)
  | brace {c ps s} : c = .char '\x7b' ∨ c = .char '\x7d' → Writes ps s →
      Writes (.char c :: ps) (c :: c :: s)
  | field {f t ps s} : f.Writes t → Writes ps s →
      Writes (.field f :: ps) (.char '\x7b' :: t ++ .char '\x7d' :: s)

def Ending.char : Ending → CodePoint
  | close => .char '\x7d'
  | layout => .char ':'
  | conversion => .char '!'

section Fields

variable {b : Bool} {n : Nat} {c : CodePoint} {s r name layout : Wide} {ending : Ending} {f : Field}

theorem takeName_ending (e : Ending) (s : Wide) :
    takeName false (e.char :: s) = .ok ([], e, s) := by
  cases e <;> rfl

theorem takeName_outside (h : c ∉ [.char '\x7b', .char '\x7d', .char ':', .char '!']) (s : Wide) :
    takeName false (c :: s) =
      (fun p => (c :: p.1, p.2)) <$> takeName (c = .char '[') s := by
  simp only [List.mem_cons, List.not_mem_nil, or_false, not_or] at h
  rw [takeName]
  · cases takeName (c = .char '[') s <;> rfl
  all_goals tauto

theorem takeName_within (c : CodePoint) (s : Wide) :
    takeName true (c :: s) = (fun p => (c :: p.1, p.2)) <$> takeName (c ≠ .char ']') s := by
  rw [takeName]
  cases takeName (c ≠ .char ']') s <;> rfl

theorem Named.takeName (h : Named b name) (e : Ending) (r : Wide) :
    takeName b (name ++ e.char :: r) = .ok (name, e, r) := by
  induction h with
  | nil => exact takeName_ending e r
  | within _ ih =>
      rw [List.cons_append, takeName_within, ih]
      rfl
  | outside hc _ ih =>
      rw [List.cons_append, takeName_outside hc, ih]
      rfl

theorem of_takeName (h : takeName b s = .ok (name, ending, r)) :
    Named b name ∧ s = name ++ ending.char :: r := by
  fun_induction takeName b s generalizing name ending r with
  | case1 => cases h
  | case2 c s ih =>
      obtain ⟨⟨name, ending, r⟩, hs, h⟩ := bind_eq_ok.1 h
      cases h
      obtain ⟨hname, rfl⟩ := ih hs
      exact ⟨.within hname, rfl⟩
  | case3 => cases h
  | case4 =>
      cases h
      exact ⟨.nil, rfl⟩
  | case5 =>
      cases h
      exact ⟨.nil, rfl⟩
  | case6 =>
      cases h
      exact ⟨.nil, rfl⟩
  | case7 c s hopen hclose hlayout hconversion ih =>
      obtain ⟨⟨name, ending, r⟩, hs, h⟩ := bind_eq_ok.1 h
      cases h
      obtain ⟨hname, rfl⟩ := ih hs
      have hc : c ∉ [.char '\x7b', .char '\x7d', .char ':', .char '!'] := by
        simp only [List.mem_cons, List.not_mem_nil, or_false, not_or]
        exact ⟨hopen, hclose, hlayout, hconversion⟩
      exact ⟨.outside hc hname, rfl⟩

theorem takeName_eq_ok : takeName b s = .ok (name, ending, r) ↔
    Named b name ∧ s = name ++ ending.char :: r := by
  refine ⟨of_takeName, ?_⟩
  rintro ⟨hname, rfl⟩
  exact hname.takeName ending r

theorem takeLayout_other (hopen : c ≠ .char '\x7b') (hclose : c ≠ .char '\x7d') (n : Nat)
    (s : Wide) :
    takeLayout n (c :: s) = (fun p => (c :: p.1, p.2)) <$> takeLayout n s := by
  rw [takeLayout]
  · cases takeLayout n s <;> rfl
  · exact hopen
  · exact fun _ h => hclose h
  · exact fun _ _ h => hclose h

theorem Balanced.takeLayout (h : Balanced n layout) (r : Wide) :
    takeLayout n (layout ++ .char '\x7d' :: r) = .ok (layout, r) := by
  induction h with
  | nil => rfl
  | opening _ ih =>
      rw [List.cons_append, Message.takeLayout, ih]
      rfl
  | closing _ ih =>
      rw [List.cons_append, Message.takeLayout, ih]
      rfl
  | other hopen hclose _ ih =>
      rw [List.cons_append, takeLayout_other hopen hclose, ih]
      rfl

theorem of_takeLayout (h : takeLayout n s = .ok (layout, r)) :
    Balanced n layout ∧ s = layout ++ .char '\x7d' :: r := by
  fun_induction takeLayout n s generalizing layout r with
  | case1 => cases h
  | case2 =>
      cases h
      exact ⟨.nil, rfl⟩
  | case3 n s ih =>
      obtain ⟨⟨layout, r⟩, hs, h⟩ := bind_eq_ok.1 h
      cases h
      obtain ⟨hlayout, rfl⟩ := ih hs
      exact ⟨.closing hlayout, rfl⟩
  | case4 n s ih =>
      obtain ⟨⟨layout, r⟩, hs, h⟩ := bind_eq_ok.1 h
      cases h
      obtain ⟨hlayout, rfl⟩ := ih hs
      exact ⟨.opening hlayout, rfl⟩
  | case5 n c s hzero hsucc hopen ih =>
      obtain ⟨⟨layout, r⟩, hs, h⟩ := bind_eq_ok.1 h
      cases h
      obtain ⟨hlayout, rfl⟩ := ih hs
      refine ⟨.other hopen (fun hclose => ?_) hlayout, rfl⟩
      cases n with
      | zero => exact hzero rfl hclose
      | succ n => exact hsucc n rfl hclose

theorem takeConversion_layout (name : Wide) (c : CodePoint) (s : Wide) :
    takeConversion name (c :: .char ':' :: s) =
      (fun p => ({ name, conversion := some c, layout := p.1 }, p.2)) <$> takeLayout 0 s := by
  change (takeLayout 0 s >>= _) = _
  cases takeLayout 0 s <;> rfl

theorem of_takeConversion (hname : Named false name) (h : takeConversion name s = .ok (f, r)) :
    ∃ t, f.Writes t ∧ name ++ .char '!' :: s = t ++ .char '\x7d' :: r := by
  unfold takeConversion at h
  split at h
  · cases h
  · cases h
  · cases h
    exact ⟨_, .conversion hname, by rw [List.append_assoc]; rfl⟩
  · obtain ⟨⟨layout, r⟩, hs, h⟩ := bind_eq_ok.1 h
    cases h
    obtain ⟨hlayout, rfl⟩ := of_takeLayout hs
    exact ⟨_, .both hname hlayout, by rw [List.append_assoc]; rfl⟩
  · cases h

theorem takeField_of_named (hname : Named false name) (ending : Ending) (r : Wide) :
    takeField (name ++ ending.char :: r) = match ending with
      | .close => .ok ({ name }, r)
      | .conversion => takeConversion name r
      | .layout => (fun p => ({ name, layout := p.1 }, p.2)) <$> takeLayout 0 r := by
  rw [takeField, hname.takeName, ok_bind]
  cases ending with
  | close => rfl
  | conversion => rfl
  | layout =>
      dsimp only
      cases takeLayout 0 r <;> rfl

theorem Field.Writes.takeField {t : Wide} (h : f.Writes t) (r : Wide) :
    takeField (t ++ .char '\x7d' :: r) = .ok (f, r) := by
  cases h with
  | name hname => exact takeField_of_named hname .close r
  | layout hname hlayout =>
      rw [List.append_assoc, List.cons_append]
      refine (takeField_of_named hname .layout _).trans ?_
      dsimp only
      rw [hlayout.takeLayout]
      rfl
  | conversion hname =>
      rw [List.append_assoc]
      exact takeField_of_named hname .conversion _
  | both hname hlayout =>
      rw [List.append_assoc, List.cons_append, List.cons_append, List.cons_append]
      refine (takeField_of_named hname .conversion _).trans ?_
      dsimp only
      rw [takeConversion_layout, hlayout.takeLayout]
      rfl

theorem takeField_eq_ok :
    takeField s = .ok (f, r) ↔ ∃ t, f.Writes t ∧ s = t ++ .char '\x7d' :: r := by
  constructor
  · intro h
    obtain ⟨⟨name, ending, rest⟩, hs, -⟩ := bind_eq_ok.1 h
    obtain ⟨hname, rfl⟩ := takeName_eq_ok.1 hs
    rw [takeField_of_named hname] at h
    cases ending with
    | close =>
        cases h
        exact ⟨name, .name hname, rfl⟩
    | conversion => exact of_takeConversion hname h
    | layout =>
        obtain ⟨⟨layout, r⟩, hs, h⟩ := map_eq_ok.1 h
        cases h
        obtain ⟨hlayout, rfl⟩ := of_takeLayout hs
        exact ⟨_, .layout hname hlayout, by rw [List.append_assoc]; rfl⟩
  · rintro ⟨t, ht, rfl⟩
    exact ht.takeField r

end Fields
section Pieces

variable {ps : List Piece} {s : Wide} {fuel : Nat}

theorem Named.head?_ne {name : Wide} (h : Named false name) {s : Wide}
    (hs : s.head? ≠ some (.char '\x7b')) : (name ++ s).head? ≠ some (.char '\x7b') := by
  cases h with
  | nil => exact hs
  | outside hc _ =>
      rintro ⟨⟩
      exact hc List.mem_cons_self

/-- A field does not begin with the character that would double its opening brace. -/
theorem Field.Writes.head?_ne {f : Field} {t : Wide} (h : f.Writes t) (s : Wide) :
    (t ++ .char '\x7d' :: s).head? ≠ some (.char '\x7b') := by
  cases h with
  | name hname => exact hname.head?_ne (by simp)
  | layout hname =>
      rw [List.append_assoc]
      exact hname.head?_ne (by simp)
  | conversion hname =>
      rw [List.append_assoc]
      exact hname.head?_ne (by simp)
  | both hname =>
      rw [List.append_assoc]
      exact hname.head?_ne (by simp)

theorem pieces_char {c : CodePoint} (hopen : c ≠ .char '\x7b') (hclose : c ≠ .char '\x7d')
    (fuel : Nat) (s : Wide) :
    pieces (fuel + 1) (c :: s) = (.char c :: (pieces fuel s).1, (pieces fuel s).2) := by
  rw [pieces.eq_def]
  dsimp only
  rw [if_neg (by simp [hopen, hclose])]

theorem pieces_brace {c : CodePoint} (hc : c = .char '\x7b' ∨ c = .char '\x7d') (fuel : Nat)
    (s : Wide) :
    pieces (fuel + 1) (c :: c :: s) = (.char c :: (pieces fuel s).1, (pieces fuel s).2) := by
  rw [pieces.eq_def]
  dsimp only
  rw [if_pos (by simpa using hc), if_pos rfl]

theorem pieces_field {f : Field} {r : Wide} (hs : s.head? ≠ some (.char '\x7b'))
    (h : takeField s = .ok (f, r)) (fuel : Nat) :
    pieces (fuel + 1) (.char '\x7b' :: s) = (.field f :: (pieces fuel r).1, (pieces fuel r).2) := by
  rw [pieces.eq_def]
  dsimp only
  rw [if_pos (by decide)]
  cases s with
  | nil => cases h
  | cons c s =>
      have hc : c ≠ .char '\x7b' := fun hc => hs (congrArg some hc)
      dsimp only
      rw [if_neg hc, if_neg (by decide), h]

theorem Writes.pieces (h : Writes ps s) (hfuel : s.length ≤ fuel) :
    pieces fuel s = (ps, none) := by
  induction h generalizing fuel with
  | nil => cases fuel <;> rfl
  | @char c ps s hopen hclose _ ih =>
      obtain ⟨fuel, rfl⟩ := Nat.exists_eq_add_one_of_ne_zero (Nat.ne_zero_of_lt hfuel)
      rw [pieces_char hopen hclose, ih (Nat.le_of_succ_le_succ hfuel)]
  | @brace c ps s hc _ ih =>
      obtain ⟨fuel, rfl⟩ := Nat.exists_eq_add_one_of_ne_zero (Nat.ne_zero_of_lt hfuel)
      rw [pieces_brace hc, ih (Nat.le_of_succ_le (Nat.le_of_succ_le_succ hfuel))]
  | @field f t ps s hf _ ih =>
      obtain ⟨fuel, rfl⟩ := Nat.exists_eq_add_one_of_ne_zero (Nat.ne_zero_of_lt hfuel)
      have hrest : s.length ≤ fuel := by
        simp only [List.cons_append, List.length_append, List.length_cons] at hfuel
        omega
      rw [List.cons_append, pieces_field (hf.head?_ne s) (hf.takeField s), ih hrest]

theorem writes_of_pieces (h : pieces fuel s = (ps, none)) (hfuel : s.length ≤ fuel) :
    Writes ps s := by
  fun_induction pieces fuel s generalizing ps with
  | case1 =>
      cases h
      exact .nil
  | case2 s hs => exact absurd (List.length_eq_zero_iff.1 (Nat.le_zero.1 hfuel)) hs
  | case3 fuel d r ps' stop hpieces hc ih =>
      cases h
      have hrest : r.length ≤ fuel := Nat.le_of_succ_le (Nat.le_of_succ_le_succ hfuel)
      exact .brace (by simpa using hc) (ih hpieces hrest)
  | case4 => cases h
  | case5 fuel c hc d r hne hclose fault htake =>
      rw [htake] at h
      cases h
  | case6 fuel c hc d r hne hclose f rest ps' stop hpieces htake ih =>
      rw [htake] at h
      dsimp only at h
      rw [hpieces] at h
      cases h
      obtain rfl : c = .char '\x7b' := by simpa [hclose] using hc
      obtain ⟨t, ht, heq⟩ := takeField_eq_ok.1 htake
      rw [heq] at hfuel ⊢
      refine .field ht (ih hpieces ?_)
      simp only [List.length_cons, List.length_append] at hfuel
      omega
  | case7 => cases h
  | case8 fuel c s hc ps' stop hpieces ih =>
      cases h
      have hc : c ≠ .char '\x7b' ∧ c ≠ .char '\x7d' := by simpa using hc
      exact .char hc.1 hc.2 (ih hpieces (Nat.le_of_succ_le_succ hfuel))

theorem pieces_eq : pieces s.length s = (ps, none) ↔ Writes ps s :=
  ⟨fun h => writes_of_pieces h (Nat.le_refl _), fun h => h.pieces (Nat.le_refl _)⟩

end Pieces

section Filling

variable {o : Objects} {args : Record o.Object} {s text : Wide} {depth : Nat}

/-- What a piece is filled with. A layout that opens braces is filled in first, as `Nested` says. -/
inductive Piece.Fills (args : Record o.Object) (Nested : Wide → Wide → Prop) : Piece → Wide → Prop
  | char {c} : Fills args Nested (.char c) [c]
  | field {f v w layout t} : lookup o args f.name = .ok v → convert o v f.conversion = .ok w →
      (if .char '\x7b' ∈ f.layout then Nested f.layout layout else layout = f.layout) →
      o.layOut layout w = .ok t → Fills args Nested (.field f) t

/-- What a template is filled in to: it is written in pieces, of which each is filled. -/
def Fills (args : Record o.Object) : (depth : Nat) → Wide → Wide → Prop
  | 0, _, _ => False
  | depth + 1, s, text => ∃ ps ts, Writes ps s ∧
      List.Forall₂ (Piece.Fills args (Fills args depth)) ps ts ∧ ts.flatten = text

theorem fill_eq_ok : fill o args depth s = .ok text ↔ Fills args depth s text := by
  induction depth generalizing s text with
  | zero => exact ⟨nofun, nofun⟩
  | succ depth ih =>
      rw [fill, Fills]
      simp only [← pieces_eq]
      obtain ⟨ps, stop⟩ := pieces s.length s
      dsimp only
      rw [bind_eq_ok]
      simp only [mapM_eq_ok_iff]
      constructor
      · rintro ⟨ts, hts, h⟩
        cases stop with
        | some fault => cases h
        | none =>
            cases h
            refine ⟨ps, ts, rfl, hts.imp fun p t hp => ?_, rfl⟩
            cases p with
            | char c =>
                cases hp
                exact .char
            | field f =>
                obtain ⟨v, hv, hp⟩ := bind_eq_ok.1 hp
                obtain ⟨w, hw, hp⟩ := bind_eq_ok.1 hp
                split at hp
                · next hopen =>
                    obtain ⟨layout, hlayout, ht⟩ := bind_eq_ok.1 hp
                    refine .field hv hw ?_ ht
                    rw [if_pos (List.contains_iff_mem.1 hopen)]
                    exact ih.1 hlayout
                · next hopen =>
                    refine .field hv hw ?_ hp
                    rw [if_neg (mt List.contains_iff_mem.2 hopen)]
      · rintro ⟨_, ts, ⟨⟩, hts, rfl⟩
        refine ⟨ts, hts.imp fun p t hp => ?_, rfl⟩
        cases hp with
        | char => rfl
        | @field f v w layout t hv hw hlayout ht =>
            dsimp only
            rw [hv, ok_bind, hw, ok_bind]
            split at hlayout
            · next hopen =>
                rw [if_pos (List.contains_iff_mem.2 hopen), ih.2 hlayout]
                exact ht
            · next hopen =>
                rw [if_neg (mt List.contains_iff_mem.1 hopen), ← hlayout]
                exact ht

theorem render_eq_ok {template : Wide} : render o args template = .ok text ↔
    Fills args 2 template text := fill_eq_ok

end Filling

/-- A text with each brace written twice. -/
def doubled (s : Wide) : Wide :=
  s.flatMap fun c => if c = .char '\x7b' ∨ c = .char '\x7d' then [c, c] else [c]

section Plain

variable {o : Objects} {s text : Wide} {ps : List Piece} {depth : Nat}

theorem argument_nil_ne_ok (name : Wide) (v : o.Object) : argument o [] name ≠ .ok v := by
  intro h
  rw [argument] at h
  split at h
  · cases h
  · obtain ⟨index, -, h⟩ := bind_eq_ok.1 h
    cases index with
    | some index => cases h
    | none => cases h

theorem lookup_nil_ne_ok (name : Wide) (v : o.Object) : lookup o [] name ≠ .ok v := by
  intro h
  rw [lookup] at h
  obtain ⟨w, hw, -⟩ := bind_eq_ok.1 h
  exact argument_nil_ne_ok _ _ hw

theorem writes_doubled (s : Wide) : Writes (s.map .char) (doubled s) := by
  induction s with
  | nil => exact .nil
  | cons c s ih =>
      rw [List.map_cons, doubled, List.flatMap_cons]
      by_cases hc : c = .char '\x7b' ∨ c = .char '\x7d'
      · rw [if_pos hc]
        exact .brace hc ih
      · rw [if_neg hc]
        exact .char (fun h => hc (.inl h)) (fun h => hc (.inr h)) ih

theorem fills_chars (args : Record o.Object) (Nested : Wide → Wide → Prop) (s : Wide) :
    List.Forall₂ (Piece.Fills args Nested) (s.map .char) (s.map fun c => [c]) := by
  rw [List.forall₂_map_left_iff, List.forall₂_map_right_iff, List.forall₂_same]
  exact fun c _ => .char

theorem doubled_of_fills {Nested : Wide → Wide → Prop} {ts : List Wide}
    (h : Writes ps s) (hts : List.Forall₂ (Piece.Fills (o := o) [] Nested) ps ts) :
    s = doubled ts.flatten := by
  induction h generalizing ts with
  | nil =>
      cases hts
      rfl
  | char hopen hclose _ ih =>
      obtain ⟨_, ts, ⟨⟩, hrest, rfl⟩ := List.forall₂_cons_left_iff.1 hts
      rw [ih hrest, List.flatten_cons, doubled, doubled, List.flatMap_append]
      simp [hopen, hclose]
  | brace hc _ ih =>
      obtain ⟨_, ts, ⟨⟩, hrest, rfl⟩ := List.forall₂_cons_left_iff.1 hts
      rw [ih hrest, List.flatten_cons, doubled, doubled, List.flatMap_append]
      simp [hc]
  | field _ _ _ =>
      obtain ⟨_, ts, hf, -, -⟩ := List.forall₂_cons_left_iff.1 hts
      cases hf with
      | field hv => exact absurd hv (lookup_nil_ne_ok _ _)

theorem fills_doubled (args : Record o.Object) (depth : Nat) (text : Wide) :
    Fills args (depth + 1) (doubled text) text := by
  refine ⟨_, _, writes_doubled text, fills_chars args _ text, ?_⟩
  rw [← List.flatMap_def, List.flatMap_singleton']

/-- Without arguments only texts can be filled in. -/
theorem fills_nil_iff : Fills (o := o) [] (depth + 1) s text ↔ s = doubled text := by
  constructor
  · rintro ⟨ps, ts, hps, hts, rfl⟩
    exact doubled_of_fills hps hts
  · rintro rfl
    exact fills_doubled [] depth text

end Plain

end DocumentSink.Message
