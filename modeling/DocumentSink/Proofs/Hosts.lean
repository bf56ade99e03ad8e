import DocumentSink.Proofs.Resolution
import DocumentSink.Proofs.Substitution
import DocumentSink.Write.Host
import Mathlib.Data.List.ReduceOption
import Mathlib.Logic.ExistsUnique

/-!
Written host lists. Each entry is a host, with a port of its own behind the last colon or without
one; blanks may stand around both, and between two commas there may be nothing but blanks. Main
statement: whatever the variables are, a host list without references is read as its entries, in
order, and those without a port have the shared one.
-/

namespace DocumentSink

/-- The port that a text gives: the integer that it denotes, or another one if there is no such
integer or it is zero. -/
inductive PortOf (default : Int) (text : List Char) : Int → Prop
  | own {n} : Numeral.Denotes (Text.trim text) n → n ≠ 0 → PortOf default text n
  | default : (∀ n, Numeral.Denotes (Text.trim text) n → n = 0) → PortOf default text default

/-- What an entry of a host list writes: no host, a host alone, or a host and a port behind the last
colon. -/
inductive Host.Writes (shared : Int) (entry : List Char) : Option Host → Prop
  | nothing : Text.trim entry = [] → Writes shared entry none
  | bare : Text.trim entry ≠ [] → ':' ∉ Text.trim entry →
      Writes shared entry (some ⟨.ofList (Text.trim entry), shared⟩)
  | ported {before after n} : Text.trim entry = before ++ ':' :: after → ':' ∉ after →
      PortOf shared after n → Writes shared entry (some ⟨.ofList (Text.trim before), n⟩)

section Reading

variable {default shared n m : Int} {text entry : List Char}

theorem PortOf.unique (hn : PortOf default text n) (hm : PortOf default text m) : n = m := by
  cases hn with
  | own hn hne =>
      cases hm with
      | own hm _ => exact hn.unique hm
      | default hm => exact absurd (hm n hn) hne
  | default hn =>
      cases hm with
      | own hm hne => exact absurd (hn m hm) hne
      | default _ => rfl

/-- A text that is resolved with a port as default, and replaced by it where it is zero. -/
theorem portOf_resolveNumber (o : String) (default : Int) (text : List Char) :
    PortOf default text (portOr default (resolveNumber o (some default) (.ofList text)).value) := by
  by_cases h : ∃ n, Numeral.Denotes (Text.trim text) n
  · obtain ⟨n, hn⟩ := h
    rw [resolveNumber_of_denotes hn, portOr]
    split
    · next hzero => exact .default fun m hm => (hm.unique hn).trans hzero
    · next hzero => exact .own hn hzero
  · have hnone := not_exists.1 h
    rw [resolveNumber_of_no_number hnone]
    dsimp only
    rw [portOr, ite_self]
    exact .default fun n hn => absurd hn (hnone n)

theorem PortOf.eq (h : PortOf default text n) (o : String) :
    portOr default (resolveNumber o (some default) (.ofList text)).value = n :=
  (portOf_resolveNumber o default text).unique h

theorem Host.Writes.hostOfEntry {o : Option Host} (h : Writes shared entry o) :
    (hostOfEntry shared entry).map (·.value) = o := by
  rw [DocumentSink.hostOfEntry]
  cases h with
  | nothing hblank =>
      rw [hblank]
      rfl
  | bare hne hcolon =>
      rw [if_neg (mt List.isEmpty_iff.1 hne), Text.cutLast_eq_none_iff.2 hcolon]
      rfl
  | @ported before after n hentry hcolon hport =>
      rw [if_neg (Text.not_isEmpty_of_cut hentry), Text.cutLast_eq_some_iff.2 ⟨hentry, hcolon⟩]
      dsimp only [Option.map_some, Resolved.map]
      rw [hport.eq]

theorem hosts_of_forall₂ {entries : List (List Char)} {os : List (Option Host)}
    (h : List.Forall₂ (Host.Writes shared) entries os) :
    (entries.filterMap (hostOfEntry shared)).map (·.value) = os.reduceOption := by
  rw [List.map_filterMap]
  induction h with
  | nil => rfl
  | @cons entry o entries os hentry _ ih =>
      rw [List.filterMap_cons, hentry.hostOfEntry, ih]
      cases o with
      | none => rfl
      | some host => rfl

/-- The hosts of a list are what its entries write. -/
theorem WriteOptions.hosts_eq {w : WriteOptions} {vars : Variables} {os : List (Option Host)}
    (hshared : PortOf defaultPort (vars.substitute w.port).toList shared)
    (h : List.Forall₂ (Host.Writes shared)
      (Text.split ',' (vars.substitute w.hostnames).toList) os) :
    (w.hosts vars).value = os.reduceOption := by
  have hport : ((w.number vars .port (some defaultPort)).map (portOr defaultPort)).value =
      shared := by
    have heq := hshared.eq TextOption.port.name
    rwa [String.ofList_toList] at heq
  rw [hosts]
  dsimp only
  rw [hport, hosts_of_forall₂ h]

end Reading

/-- A text with blanks around it, or none. -/
inductive Text.Padded (s : List Char) : List Char → Prop
  | around {a b} : (∀ c ∈ a, isBlank c = true) → (∀ c ∈ b, isBlank c = true) →
      Padded s (a ++ s ++ b)

theorem Text.Padded.trim_eq {s t : List Char} (h : Padded s t) (hs : Trimmed s) : trim t = s := by
  cases h with
  | around ha hb => exact trim_append ha hs hb

theorem Text.Padded.not_mem {s t : List Char} {c : Char} (h : Padded s t) (hc : isBlank c = false)
    (hs : c ∉ s) : c ∉ t := by
  cases h with
  | around ha hb =>
      rw [List.mem_append, List.mem_append]
      rintro ((hmem | hmem) | hmem)
      · rw [ha c hmem] at hc
        cases hc
      · exact hs hmem
      · rw [hb c hmem] at hc
        cases hc

/-- A host with a port of its own, or without. -/
structure HostEntry where
  name : String
  port : Option Int
  deriving DecidableEq, Repr

namespace HostEntry

/-- A host that can be told from what stands around it. Only one with a port may hold colons. -/
structure Proper (e : HostEntry) : Prop where
  name_ne : e.name.toList ≠ []
  trimmed : Text.Trimmed e.name.toList
  no_comma : ',' ∉ e.name.toList
  no_colon : e.port = none → ':' ∉ e.name.toList
  port_ne : ∀ n ∈ e.port, n ≠ 0
  port_short : ∀ n ∈ e.port, (Nat.toDigits 10 n.natAbs).length ≤ Numeral.digitLimit

inductive Written : HostEntry → List Char → Prop
  | bare {name t} : Text.Padded name.toList t → Written ⟨name, none⟩ t
  | ported {name n t u} : Text.Padded name.toList t → Text.Padded (Numeral.decimal n) u →
      Written ⟨name, some n⟩ (t ++ ':' :: u)

/-- Entries in order, with any number of blank texts before, between and behind them. -/
inductive Listed : List HostEntry → List (List Char) → Prop
  | nil : Listed [] []
  | blank {es t ts} : (∀ c ∈ t, Text.isBlank c = true) → Listed es ts → Listed es (t :: ts)
  | entry {e es t ts} : e.Written t → Listed es ts → Listed (e :: es) (t :: ts)

/-- The host of an entry, where all others share a port. -/
def host (e : HostEntry) (shared : Int) : Host := ⟨e.name, e.port.getD shared⟩

variable {e : HostEntry} {es : List HostEntry} {t : List Char} {ts : List (List Char)}
  {shared : Int}

theorem Written.no_comma (h : e.Written t) (he : e.Proper) : ',' ∉ t := by
  have hname := he.no_comma
  cases h with
  | bare ht => exact ht.not_mem (by decide) hname
  | @ported name n t u ht hu =>
      rw [List.mem_append, List.mem_cons]
      rintro (hmem | hmem | hmem)
      · exact ht.not_mem (by decide) hname hmem
      · cases hmem
      · exact hu.not_mem (by decide) (Numeral.not_mem_decimal (by decide) n) hmem

/-- Only the blanks around an entry with a port are trimmed at first: those beside the colon stay,
and it is the last colon. -/
theorem trim_ported {name a b c d : List Char} (hname : Text.Trimmed name) (hne : name ≠ [])
    (ha : ∀ x ∈ a, Text.isBlank x = true) (hd : ∀ x ∈ d, Text.isBlank x = true) (n : Int) :
    Text.trim (a ++ name ++ b ++ ':' :: (c ++ Numeral.decimal n ++ d)) =
      (name ++ b) ++ ':' :: (c ++ Numeral.decimal n) := by
  have htrimmed := Text.trimmed_between hname hne (Numeral.trimmed_decimal n)
    (Numeral.decimal_ne_nil n) (b ++ ':' :: c)
  have htrim := Text.trim_append ha htrimmed hd
  simpa only [List.append_assoc, List.cons_append] using htrim

/-- What stands for an entry is read as the entry. -/
theorem Written.writes (h : e.Written t) (he : e.Proper) :
    Host.Writes shared t (some (e.host shared)) := by
  obtain ⟨hne, htrimmed, -, hcolon, hport, hshort⟩ := he
  cases h with
  | @bare name t ht =>
      have htrim := ht.trim_eq htrimmed
      rw [← htrim] at hne
      have hcolon : ':' ∉ Text.trim t := by
        rw [htrim]
        exact hcolon rfl
      have hwrites : Host.Writes shared t (some ⟨.ofList (Text.trim t), shared⟩) :=
        .bare hne hcolon
      rwa [htrim, String.ofList_toList] at hwrites
  | @ported name n t u ht hu =>
      cases ht with
      | @around a b ha hb =>
          cases hu with
          | @around c d hc hd =>
              have htrim := trim_ported (b := b) (c := c) htrimmed hne ha hd n
              have hbefore := Text.trim_append (List.forall_mem_nil _) htrimmed hb
              have hafter := Text.trim_append hc (Numeral.trimmed_decimal n) (List.forall_mem_nil _)
              rw [List.nil_append] at hbefore
              rw [List.append_nil] at hafter
              have hlast : ':' ∉ c ++ Numeral.decimal n := by
                rw [List.mem_append]
                rintro (hmem | hmem)
                · exact absurd (hc ':' hmem) (by decide)
                · exact Numeral.not_mem_decimal (by decide) n hmem
              have hown : PortOf shared (c ++ Numeral.decimal n) n := by
                refine .own ?_ (hport n rfl)
                rw [hafter]
                exact Numeral.denotes_decimal (hshort n rfl)
              have hwrites := Host.Writes.ported htrim hlast hown
              rwa [hbefore, String.ofList_toList] at hwrites

theorem Listed.writes (h : Listed es ts) (hes : ∀ e ∈ es, e.Proper) :
    ∃ os, List.Forall₂ (Host.Writes shared) ts os ∧ os.reduceOption = es.map (·.host shared) := by
  induction h with
  | nil => exact ⟨[], .nil, rfl⟩
  | blank ht _ ih =>
      obtain ⟨os, hos, hhosts⟩ := ih hes
      exact ⟨none :: os, .cons (.nothing (Text.trim_of_blank ht)) hos, hhosts⟩
  | @entry e es t ts ht _ ih =>
      obtain ⟨he, hes⟩ := List.forall_mem_cons.1 hes
      obtain ⟨os, hos, hhosts⟩ := ih hes
      refine ⟨some (e.host shared) :: os, .cons (ht.writes he) hos, ?_⟩
      rw [List.reduceOption_cons_of_some, hhosts, List.map_cons]

theorem Listed.no_comma (h : Listed es ts) (hes : ∀ e ∈ es, e.Proper) : ∀ t ∈ ts, ',' ∉ t := by
  induction h with
  | nil => exact List.forall_mem_nil _
  | @blank es t ts ht _ ih =>
      refine List.forall_mem_cons.2 ⟨fun hmem => ?_, ih hes⟩
      exact absurd (ht ',' hmem) (by decide)
  | entry ht _ ih =>
      obtain ⟨he, hes⟩ := List.forall_mem_cons.1 hes
      exact List.forall_mem_cons.2 ⟨ht.no_comma he, ih hes⟩

/-- The entries of a list are found between its commas again; a list of none is one blank text. -/
theorem Listed.split (h : Listed es ts) (hes : ∀ e ∈ es, e.Proper) :
    Listed es (Text.split ',' (Text.join ',' ts)) := by
  cases ts with
  | nil =>
      cases h
      exact .blank (List.forall_mem_nil _) .nil
  | cons t ts => rwa [Text.split_join (List.cons_ne_nil t ts) (h.no_comma hes)]

end HostEntry

/-- A host list without references is read as the entries that it was written for, in order, with
blanks and blank entries anywhere and whatever the variables are. -/
theorem WriteOptions.hosts_of_listed {w : WriteOptions} {entries : List HostEntry}
    {texts : List (List Char)} (hproper : ∀ e ∈ entries, e.Proper)
    (hlisted : HostEntry.Listed entries texts)
    (hnames : w.hostnames = .ofList (Text.join ',' texts))
    (href : Variables.hasReferences w.hostnames = false) (vars : Variables) :
    (∃! shared, PortOf defaultPort (vars.substitute w.port).toList shared) ∧
      ∀ shared, PortOf defaultPort (vars.substitute w.port).toList shared →
        (w.hosts vars).value = entries.map (·.host shared) := by
  constructor
  · have hport := portOf_resolveNumber "port" defaultPort (vars.substitute w.port).toList
    exact ⟨_, hport, fun n hn => hn.unique hport⟩
  · intro shared hshared
    obtain ⟨os, hos, hhosts⟩ := (hlisted.split hproper).writes hproper
    have hparts : (vars.substitute w.hostnames).toList = Text.join ',' texts := by
      rw [Variables.substitute_of_no_references href, hnames, String.toList_ofList]
    rw [← hparts] at hos
    rw [hosts_eq hshared hos, hhosts]

/-- A host with colons, a blank entry, and a shared port that comes out of the variables. -/
theorem WriteOptions.hosts_of_listed_padded :
    let w : WriteOptions := { hostnames := " ::1 :\t27018,,db ", port := "$\x7bP\x7d" }
    let vars : Variables := [("P", .text " 7_000")]
    let entries : List HostEntry := [⟨"::1", some 27018⟩, ⟨"db", none⟩]
    (∀ e ∈ entries, e.Proper) ∧ Variables.hasReferences w.hostnames = false ∧
      PortOf defaultPort (vars.substitute w.port).toList 7000 ∧
      (w.hosts vars).value = [⟨"::1", 27018⟩, ⟨"db", 7000⟩] := by
  intro w vars entries
  have hproper : ∀ e ∈ entries, e.Proper := by
    rw [List.forall_mem_cons, List.forall_mem_singleton]
    have hfirst : Text.Trimmed "::1".toList :=
      Text.trimmed_of_no_blank (Text.no_blank_of_any (by decide))
    have hlast : Text.Trimmed "db".toList :=
      Text.trimmed_of_no_blank (Text.no_blank_of_any (by decide))
    refine ⟨⟨by decide, hfirst, by decide, nofun, ?_, ?_⟩,
      ⟨by decide, hlast, by decide, fun _ => by decide, nofun, nofun⟩⟩
    · rintro _ ⟨⟩
      decide
    · rintro _ ⟨⟩
      decide
  have href : Variables.hasReferences w.hostnames = false := by decide +kernel
  have hport : PortOf defaultPort (vars.substitute w.port).toList 7000 := by
    refine .own (Numeral.decimal?_eq_some_iff.1 ?_) (by decide)
    decide +kernel
  have hspace : ∀ c ∈ [' '], Text.isBlank c = true := List.all_eq_true.1 (by decide)
  have hfirst : (HostEntry.mk "::1" (some 27018)).Written
      ([' '] ++ "::1".toList ++ [' '] ++ ':' :: (['\t'] ++ Numeral.decimal 27018 ++ [])) :=
    .ported (.around hspace hspace)
      (.around (List.all_eq_true.1 (by decide)) (List.forall_mem_nil _))
  have hlast : (HostEntry.mk "db" none).Written ([] ++ "db".toList ++ [' ']) :=
    .bare (.around (List.forall_mem_nil _) hspace)
  have hlisted : HostEntry.Listed entries [_, [], _] :=
    .entry hfirst (.blank (List.forall_mem_nil _) (.entry hlast .nil))
  obtain ⟨-, hhosts⟩ := hosts_of_listed hproper hlisted (w := w) (by decide +kernel) href vars
  exact ⟨hproper, href, hport, hhosts 7000 hport⟩

end DocumentSink
