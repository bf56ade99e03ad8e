import DocumentSink.Proofs.Decimal
import DocumentSink.Proofs.Substitution
import DocumentSink.Write.Number

/-!
Numbers that options resolve to. The text of an option is blank, a numeral, a numeral that is too
long, or no numeral at all, and each option has a number for each of these. Main statement: the
number of every option, with its warning if there is one, and that a batch is never empty.
-/

namespace DocumentSink

/-- A text of digits and signs stands for itself, whatever the variables are. -/
theorem Variables.trim_substitute_of_letters {s : List Char}
    (h : ∀ c ∈ s, c ∈ Numeral.decimalLetters) (vars : Variables) :
    Text.trim (vars.substitute (.ofList s)).toList = s := by
  have hreferences : hasReferences (.ofList s) = false := by
    rw [Bool.eq_false_iff]
    intro href
    have hmem := mem_of_hasReferences href
    rw [String.toList_ofList] at hmem
    rcases hmem with hmem | hmem
    · exact absurd (h _ hmem) (by decide)
    · exact absurd (h _ hmem) (by decide)
  have hblank := Text.no_blank_of_any (s := Numeral.decimalLetters) (by decide)
  rw [substitute_of_no_references hreferences, String.toList_ofList]
  exact Text.trim_of_trimmed (Text.trimmed_of_no_blank fun c hc => hblank c (h c hc))

section Resolving

variable {o : String} {d : Option Int} {text : List Char} {n : Int}

theorem resolveNumber_of_blank (h : Text.trim text = []) :
    resolveNumber o d (.ofList text) = ⟨d, []⟩ := by
  rw [resolveNumber, String.toList_ofList, h]
  rfl

theorem resolveNumber_of_denotes (h : Numeral.Denotes (Text.trim text) n) :
    resolveNumber o d (.ofList text) = ⟨some n, []⟩ := by
  have hread := Numeral.decimal?_eq_some_iff.2 h
  have hne : ¬ (Text.trim text).isEmpty = true := by
    intro hempty
    rw [List.isEmpty_iff.1 hempty] at hread
    cases hread
  rw [resolveNumber, String.toList_ofList, if_neg hne, hread]

theorem resolveNumber_of_no_number (h : ∀ n, ¬ Numeral.Denotes (Text.trim text) n) :
    resolveNumber o d (.ofList text) =
      ⟨d, if (Text.trim text).isEmpty then [] else
        [.notNumeric o (.ofList (Text.trim text)) d]⟩ := by
  have hread : Numeral.decimal? (Text.trim text) = none :=
    Option.eq_none_iff_forall_ne_some.2 fun n hn => h n (Numeral.decimal?_eq_some_iff.1 hn)
  rw [resolveNumber, String.toList_ofList, hread]
  split
  · rfl
  · rfl

/-- A numeral counts unless it is too long. -/
theorem resolveNumber_of_spells {ds : List Nat} (h : Numeral.Spells (Text.trim text) ds n) :
    resolveNumber o d (.ofList text) =
      if ds.length ≤ Numeral.digitLimit then ⟨some n, []⟩
      else ⟨d, [.notNumeric o (.ofList (Text.trim text)) d]⟩ := by
  split
  · next hlimit => exact resolveNumber_of_denotes (h.denotes_iff_length_le.2 ⟨hlimit, rfl⟩)
  · next hlimit =>
      have hnone : ∀ m, ¬ Numeral.Denotes (Text.trim text) m := fun m hm =>
        hlimit (h.denotes_iff_length_le.1 hm).1
      rw [resolveNumber_of_no_number hnone, if_neg (mt List.isEmpty_iff.1 h.ne_nil)]

theorem resolveNumber_of_no_numeral (hne : Text.trim text ≠ [])
    (h : ∀ ds n, ¬ Numeral.Spells (Text.trim text) ds n) :
    resolveNumber o d (.ofList text) = ⟨d, [.notNumeric o (.ofList (Text.trim text)) d]⟩ := by
  have hnone : ∀ n, ¬ Numeral.Denotes (Text.trim text) n := by
    intro n hn
    obtain ⟨ds, hspells, -⟩ := Numeral.denotes_iff.1 hn
    exact h ds n hspells
  rw [resolveNumber_of_no_number hnone, if_neg (mt List.isEmpty_iff.1 hne)]

end Resolving

/-- The options that are numbers of their own. The port belongs to the hosts. -/
inductive NumberOption
  | batchInsertSize
  | connectTimeout
  | socketTimeout
  | wTimeout
  | writeRetries
  | writeRetryDelay
  deriving DecidableEq, Repr

namespace NumberOption

def text : NumberOption → TextOption
  | batchInsertSize => .batchInsertSize
  | connectTimeout => .connectTimeout
  | socketTimeout => .socketTimeout
  | wTimeout => .wTimeout
  | writeRetries => .writeRetries
  | writeRetryDelay => .writeRetryDelay

/-- What holds without a number; no number is to wait without end. -/
def fallback : NumberOption → Option Int
  | batchInsertSize => some 100
  | writeRetries => some 5
  | writeRetryDelay => some 10
  | connectTimeout | socketTimeout | wTimeout => none

/-- What a number is taken for: there is no batch of less than one document. -/
def taken : NumberOption → Int → Int
  | batchInsertSize, n => if 0 < n then n else 100
  | _, n => n

/-- What the options resolve to. -/
def resolved (w : WriteOptions) (vars : Variables) : NumberOption → Resolved (Option Int)
  | batchInsertSize => (w.batchSize vars).map some
  | connectTimeout => w.connectWait vars
  | socketTimeout => w.socketWait vars
  | wTimeout => w.replicationWait vars
  | writeRetries => (w.retries vars).map some
  | writeRetryDelay => (w.retryDelay vars).map some

/-- The text that the number of an option is read from, without blanks around it. -/
def writtenText (w : WriteOptions) (vars : Variables) (o : NumberOption) : List Char :=
  Text.trim (vars.substitute (o.text.get w)).toList

/-- What an option resolves to where a text is refused. -/
def refused (o : NumberOption) (text : List Char) : Resolved (Option Int) :=
  ⟨o.fallback, [.notNumeric o.text.name (.ofList text) o.fallback]⟩

variable {w : WriteOptions} {vars : Variables} {o : NumberOption}

def settle (o : NumberOption) (n : Option Int) : Option Int := (n.map o.taken).or o.fallback

theorem settle_fallback (o : NumberOption) : o.settle o.fallback = o.fallback := by
  cases o <;> rfl

theorem settle_some (o : NumberOption) (n : Int) : o.settle (some n) = some (o.taken n) := rfl

/-- All options go one way: a number with the default of the option, and what it is taken for. -/
theorem resolved_eq (w : WriteOptions) (vars : Variables) (o : NumberOption) :
    o.resolved w vars = (w.number vars o.text o.fallback).map o.settle := by
  have hsettle (d : Option Int) (f : Option Int → Int) (hf : ∀ n, some (f n) = o.settle n) :
      ((w.number vars o.text d).map f).map some = (w.number vars o.text d).map o.settle := by
    rw [Resolved.map, Resolved.map, Resolved.map, hf]
  have hnumber (d : Option Int) (hd : ∀ n, o.settle n = n) :
      w.number vars o.text d = (w.number vars o.text d).map o.settle := by
    rw [Resolved.map, hd]
  cases o with
  | batchInsertSize => exact hsettle (some 100) _ fun n => by cases n <;> rfl
  | connectTimeout => exact hnumber none fun n => by cases n <;> rfl
  | socketTimeout => exact hnumber none fun n => by cases n <;> rfl
  | wTimeout => exact hnumber none fun n => by cases n <;> rfl
  | writeRetries => exact hsettle (some 5) _ fun n => by cases n <;> rfl
  | writeRetryDelay => exact hsettle (some 10) _ fun n => by cases n <;> rfl

theorem resolved_eq_resolveNumber (w : WriteOptions) (vars : Variables) (o : NumberOption) :
    o.resolved w vars =
      (resolveNumber o.text.name o.fallback
        (.ofList (vars.substitute (o.text.get w)).toList)).map o.settle := by
  rw [resolved_eq, WriteOptions.number, String.ofList_toList]

theorem resolved_of_blank (h : o.writtenText w vars = []) :
    o.resolved w vars = ⟨o.fallback, []⟩ := by
  rw [resolved_eq_resolveNumber, resolveNumber_of_blank h, Resolved.map, settle_fallback]

theorem resolved_of_spells {ds : List Nat} {n : Int}
    (h : Numeral.Spells (o.writtenText w vars) ds n) :
    o.resolved w vars =
      if ds.length ≤ Numeral.digitLimit then ⟨some (o.taken n), []⟩
      else o.refused (o.writtenText w vars) := by
  rw [resolved_eq_resolveNumber, resolveNumber_of_spells h]
  split
  · rw [Resolved.map, settle_some]
  · rw [Resolved.map, settle_fallback]
    rfl

theorem resolved_of_no_numeral (hne : o.writtenText w vars ≠ [])
    (h : ∀ ds n, ¬ Numeral.Spells (o.writtenText w vars) ds n) :
    o.resolved w vars = o.refused (o.writtenText w vars) := by
  rw [resolved_eq_resolveNumber, resolveNumber_of_no_numeral hne h, Resolved.map, settle_fallback]
  rfl

end NumberOption

namespace WriteOptions

theorem one_le_batchSize (w : WriteOptions) (vars : Variables) :
    1 ≤ (w.batchSize vars).value := by
  rw [batchSize, Resolved.map]
  dsimp only
  split
  · split
    · next hpos => exact hpos
    · decide
  · decide

/-- Every option resolves. A blank text gives the default; a numeral gives its integer, or the
default and a warning if it is too long, and so does an integer as it is written; any other text
gives the default and a warning. A batch has at least one document. -/
theorem numbers_resolved (w : WriteOptions) (vars : Variables) :
    (∀ o : NumberOption,
      let text := o.writtenText w vars
      (text = [] → o.resolved w vars = ⟨o.fallback, []⟩) ∧
      (∀ ds n, Numeral.Spells text ds n → o.resolved w vars =
        if ds.length ≤ Numeral.digitLimit then ⟨some (o.taken n), []⟩ else o.refused text) ∧
      (∀ n, text = Numeral.decimal n → o.resolved w vars =
        if (Nat.toDigits 10 n.natAbs).length ≤ Numeral.digitLimit then ⟨some (o.taken n), []⟩
        else o.refused text) ∧
      (text ≠ [] → (∀ ds n, ¬ Numeral.Spells text ds n) → o.resolved w vars = o.refused text)) ∧
    1 ≤ (w.batchSize vars).value := by
  refine ⟨?_, one_le_batchSize w vars⟩
  intro o text
  refine ⟨NumberOption.resolved_of_blank, fun _ _ => NumberOption.resolved_of_spells, ?_,
    NumberOption.resolved_of_no_numeral⟩
  intro n h
  obtain ⟨ds, hds, hlength⟩ := Numeral.spells_decimal n
  rw [← h] at hds
  rw [← hlength]
  exact NumberOption.resolved_of_spells hds

/-- A batch of less than one document, digits of another script with blanks around them, a numeral
of one digit too many, two underscores between digits, a blank, and a plus sign. -/
theorem numbers_resolved_six :
    let ones := List.replicate 4301 '1'
    let w : WriteOptions :=
      { batchInsertSize := "-3", connectTimeout := "$\x7bT\x7d", socketTimeout := .ofList ones,
        wTimeout := "1__0", writeRetries := " ", writeRetryDelay := "+07" }
    let vars : Variables := [("T", .text " \u0660_7\n")]
    NumberOption.batchInsertSize.resolved w vars = ⟨some 100, []⟩ ∧
      NumberOption.connectTimeout.resolved w vars = ⟨some 7, []⟩ ∧
      NumberOption.socketTimeout.resolved w vars =
        ⟨none, [.notNumeric "socket_timeout" (.ofList ones) none]⟩ ∧
      NumberOption.wTimeout.resolved w vars = ⟨none, [.notNumeric "w_timeout" "1__0" none]⟩ ∧
      NumberOption.writeRetries.resolved w vars = ⟨some 5, []⟩ ∧
      NumberOption.writeRetryDelay.resolved w vars = ⟨some 7, []⟩ ∧
      1 ≤ (w.batchSize vars).value := by
  intro ones w vars
  obtain ⟨h, hbatch⟩ := numbers_resolved w vars
  have hminus : NumberOption.batchInsertSize.writtenText w vars = ['-', '3'] := by
    decide +kernel
  have hscript : NumberOption.connectTimeout.writtenText w vars = ['\u0660', '_', '7'] := by
    decide +kernel
  have hones : NumberOption.socketTimeout.writtenText w vars = ones := by
    apply Variables.trim_substitute_of_letters
    intro c hc
    rw [List.eq_of_mem_replicate hc]
    decide
  have hdouble : NumberOption.wTimeout.writtenText w vars = ['1', '_', '_', '0'] := by
    decide +kernel
  have hblank : NumberOption.writeRetries.writtenText w vars = [] := by decide +kernel
  have hplus : NumberOption.writeRetryDelay.writtenText w vars = ['+', '0', '7'] := by
    decide +kernel
  refine ⟨?_, ?_, ?_, ?_, (h .writeRetries).1 hblank, ?_, hbatch⟩
  · exact (h .batchInsertSize).2.1 [3] (-3) (hminus ▸ .minus (.last (by decide)))
  · exact (h .connectTimeout).2.1 [0, 7] 7
      (hscript ▸ .plain (.spaced (by decide) (.last (by decide))))
  · have hone : Numeral.digit? '1' = some 1 := by decide
    have hspells : Numeral.Spells ones (List.replicate 4301 1) _ :=
      .plain (Numeral.digits_replicate hone 4300)
    have hlong := (h .socketTimeout).2.1 _ _ (hones ▸ hspells)
    rwa [List.length_replicate, if_neg (by decide), hones] at hlong
  · have hwarned := (h .wTimeout).2.2.2
    rw [hdouble] at hwarned
    refine hwarned (List.cons_ne_nil _ _) ?_
    intro ds n hspells
    cases Numeral.digits?_eq_some_iff.2 (Numeral.spells_iff.1 hspells).1
  · exact (h .writeRetryDelay).2.1 [0, 7] 7
      (hplus ▸ .plus (.next (by decide) (.last (by decide))))

end WriteOptions

end DocumentSink
