import LintHooks.Proofs.Settings.Acceptance
import LintHooks.Proofs.Text.Basic
set_option autoImplicit false

/-!
# Settings: what a rejection says

An entry that is refused because no key has its name is named by the message.  One that is refused
for its value is not: the message shows what was found and says what was wanted, and both are the
same for other keys.

The main result is `read_rejected`.  Every failure to read a document is a rejection of one of its
entries (`exists_offends_of_readOn`), and the message of a rejection is known (`Offends.says`).
Whether it tells the key is `Offends.tellsKey_iff`.  The message about an unknown key has its name
in it and is like no other (`tellsKey_unknownKey`); for any other one `Offends.exists_alike` finds
an entry with another key that is refused with the same message.  `read_rejected_unnamed` is such a
message.
-/

namespace LintHooks

namespace Rejection

/-- The names of all keys as messages show them. -/
def knownKeys : String :=
  String.intercalate ", " (Key.all.map fun k => "`" ++ k.name ++ "`")

theorem message_unknownKey (key : String) :
    (unknownKey key).message = "unknown field `" ++ key ++ "`, expected one of " ++ knownKeys := rfl

theorem message_unknownKey_inj {a b : String} :
    (unknownKey a).message = (unknownKey b).message ↔ a = b := by
  constructor
  · intro h
    rw [message_unknownKey, message_unknownKey, String.append_left_inj, String.append_left_inj,
      String.append_right_inj] at h
    exact h
  · rintro rfl
    rfl

theorem message_wrongSort (k : Key) (found : Toml.Value) (wanted : Wanted) :
    (wrongSort k found wanted).message =
      "invalid type: " ++ describe found ++ ", expected " ++ wanted.name := rfl

theorem append_ne_append {a b : String} {c d : Char} (ha : a.toList.head? = some c)
    (hb : b.toList.head? = some d) (h : c ≠ d) (s t : String) : a ++ s ≠ b ++ t := by
  intro heq
  have hhead := congrArg (fun s : String => s.toList.head?) heq
  simp only [String.toList_append, List.head?_append, ha, hb, Option.some_or] at hhead
  exact h (Option.some.inj hhead)

/-- No message is about a name and about a value. -/
theorem message_unknownKey_ne (key : String) (k : Key) (found : Toml.Value) (wanted : Wanted) :
    (unknownKey key).message ≠ (wrongSort k found wanted).message := by
  simp only [message_unknownKey, message_wrongSort, String.append_assoc]
  exact append_ne_append (c := 'u') (d := 'i') (by decide) (by decide) (by decide) _ _

end Rejection

namespace Settings

open Toml (Value)

variable {launcher : Launcher} {host : Host} {content origin : String} {part : Section}
  {document : Toml.Table} {key : String} {v : Value} {r : Rejection} {k : Key}

/-- What a message says about an entry.  The key is in it only if it is no key of the settings. -/
inductive Says (key : String) (v : Value) : String → Prop where
  | unknown : (∀ k : Key, key ≠ k.name) →
    Says key v ("unknown field `" ++ key ++ "`, expected one of " ++ Rejection.knownKeys)
  | wrongSort (k : Key) (found : Value) (wanted : Wanted) : key = k.name →
    (found = v ∨ ∃ items, v = .array items ∧ found ∈ items) →
    Says key v ("invalid type: " ++ Rejection.describe found ++ ", expected " ++ wanted.name)

/-- Whether a message tells a key: no entry with another key that stands alone in a table is
refused with it. -/
def TellsKey (message key : String) : Prop :=
  ∀ key' v r, ofTable [(key', v)] = .error r → r.message = message → key' = key

/-! ## Entries -/

theorem ofTable_singleton (h : Offends key v r) : ofTable [(key, v)] = .error r := by
  have hsorted : Toml.Table.sorted [(key, v)] = [(key, v)] := List.mergeSort_singleton (key, v)
  rw [ofTable, hsorted, List.foldlM_cons, h.setEntry {}]
  rfl

theorem offends_of_singleton (h : ofTable [(key, v)] = .error r) : Offends key v r := by
  have hnodup : ([(key, v)].map Prod.fst).Nodup := List.nodup_singleton key
  have hread := ofTable_spec hnodup
  rw [h] at hread
  obtain ⟨e, he, hoffends, -⟩ := hread
  cases List.mem_singleton.1 he
  exact hoffends

theorem Offends.says (h : Offends key v r) : Says key v r.message := by
  cases h with
  | unknown hunknown => exact .unknown hunknown
  | flag f _ => exact .wrongSort (.flag f) v .truth rfl (.inl rfl)
  | text t _ => exact .wrongSort (.text t) v _ rfl (.inl rfl)
  | list l _ => exact .wrongSort (.list l) v .list rfl (.inl rfl)
  | item l _ _ =>
    exact .wrongSort (.list l) _ _ rfl
      (.inr ⟨_, rfl, List.mem_append_right _ List.mem_cons_self⟩)

theorem tellsKey_unknownKey (key : String) : TellsKey (Rejection.unknownKey key).message key := by
  intro key' v r hr hmessage
  cases offends_of_singleton hr with
  | unknown _ => exact Rejection.message_unknownKey_inj.1 hmessage
  | _ => exact absurd hmessage.symm (Rejection.message_unknownKey_ne _ _ _ _)

/-! ## Keys that are taken for each other -/

theorem exists_ne_flag (f : FlagKey) : ∃ g : FlagKey, g ≠ f := by
  cases f with
  | clean => exact ⟨.noDiff, nofun⟩
  | _ => exact ⟨.clean, nofun⟩

theorem exists_ne_list (l : ListKey) : ∃ m : ListKey, m ≠ l := by
  cases l with
  | defines => exact ⟨.undefines, nofun⟩
  | _ => exact ⟨.defines, nofun⟩

/-- There are two texts and more of each sort. -/
theorem exists_ne_text (t : TextKey) :
    ∃ u : TextKey, u ≠ t ∧ wantedText (.text u) = wantedText (.text t) := by
  cases t with
  | sourceDir => exact ⟨.cmake, nofun, rfl⟩
  | cmake => exact ⟨.sourceDir, nofun, rfl⟩
  | version => exact ⟨.preset, nofun, rfl⟩
  | _ => exact ⟨.version, nofun, rfl⟩

/-- Some text wants what a list wants of its items. -/
theorem exists_text_of_list (l : ListKey) :
    ∃ t : TextKey, wantedText (.text t) = wantedText (.list l) := by
  cases l with
  | buildDir => exact ⟨.sourceDir, rfl⟩
  | _ => exact ⟨.version, rfl⟩

/-- Where the value of a key is refused, one of another key is refused with the same message. -/
theorem Offends.exists_alike (h : Offends k.name v r) :
    ∃ j : Key, j ≠ k ∧ ∃ v' r', Offends j.name v' r' ∧ r'.message = r.message := by
  generalize hname : k.name = name at h
  cases h with
  | unknown hunknown => exact absurd hname.symm (hunknown k)
  | flag f hv =>
    cases name_injective hname
    obtain ⟨g, hg⟩ := exists_ne_flag f
    exact ⟨.flag g, fun h => hg (Key.flag.inj h), v, _, .flag g hv, rfl⟩
  | text t hv =>
    cases name_injective hname
    obtain ⟨u, hu, hwanted⟩ := exists_ne_text t
    refine ⟨.text u, fun h => hu (Key.text.inj h), v, _, .text u hv, ?_⟩
    rw [hwanted]
    rfl
  | list l hv =>
    cases name_injective hname
    obtain ⟨m, hm⟩ := exists_ne_list l
    exact ⟨.list m, fun h => hm (Key.list.inj h), v, _, .list m hv, rfl⟩
  | @item l before after item hbefore hitem =>
    cases name_injective hname
    obtain ⟨t, hwanted⟩ := exists_text_of_list l
    refine ⟨.text t, nofun, item, _, .text t hitem, ?_⟩
    rw [hwanted]
    rfl

theorem Offends.tellsKey_iff (h : Offends key v r) :
    TellsKey r.message key ↔ ∀ k : Key, key ≠ k.name := by
  constructor
  · rintro htells k rfl
    obtain ⟨j, hj, v', r', hoffends, hmessage⟩ := h.exists_alike
    exact hj (name_injective (htells j.name v' r' (ofTable_singleton hoffends) hmessage))
  · intro hunknown
    obtain rfl := h.unique (.unknown hunknown)
    exact tellsKey_unknownKey key

/-! ## Documents -/

/-- The only failures to read a document are rejections, each for an entry of the section. -/
theorem exists_offends_of_readOn {failure : Failure}
    (hdoc : Toml.parse? content.toList = some document)
    (hfail : readOn launcher host origin content part = .error failure) :
    ∃ t, part.find? document = some t ∧ ∃ e ∈ t, ∃ r, Offends e.1 e.2 r ∧
      (∀ e' ∈ t, ¬ Proper e'.1 e'.2 → Text.bytesOf e.1 ≤ Text.bytesOf e'.1) ∧
      failure = rejection origin r := by
  cases hpart : part.find? document with
  | none =>
    rw [readOn_none hdoc hpart] at hfail
    cases hfail
  | some t =>
    have hread : ReadAs t origin (readOn launcher host origin content part) :=
      readAs_readOn hdoc hpart
    have himproper : ¬ ∀ e ∈ t, Proper e.1 e.2 := by
      intro hproper
      obtain ⟨c, hc⟩ := hread.accepts.2 hproper
      rw [hfail] at hc
      cases hc
    obtain ⟨e, he, r, hoffends, hleast, hr⟩ := hread.rejects himproper
    rw [hfail] at hr
    exact ⟨t, rfl, e, he, r, hoffends, hleast, Except.error.inj hr⟩

/-- Whatever is wrong with the settings of a document, the failure is about the first entry that
something is wrong with.  Its message tells the key just if it is no key of the settings. -/
theorem read_rejected {failure : Failure} (hdoc : Toml.parse? content.toList = some document)
    (hfail : readOn launcher host origin content part = .error failure) :
    ∃ t, part.find? document = some t ∧ ∃ e ∈ t, ∃ message,
      failure = .report (.config ("Invalid settings in " ++ origin ++ ": " ++ message)
        (some Hint.invalidToml)) ∧
      ¬ Proper e.1 e.2 ∧
      (∀ e' ∈ t, ¬ Proper e'.1 e'.2 → Text.bytesOf e.1 ≤ Text.bytesOf e'.1) ∧
      Says e.1 e.2 message ∧
      (TellsKey message e.1 ↔ ∀ k : Key, e.1 ≠ k.name) := by
  obtain ⟨t, hpart, e, he, r, hoffends, hleast, rfl⟩ := exists_offends_of_readOn hdoc hfail
  exact ⟨t, hpart, e, he, r.message, rfl, fun hproper => hproper.not_offends r hoffends, hleast,
    hoffends.says, hoffends.tellsKey_iff⟩

/-- A key that is none is told. -/
theorem read_rejected_flag :
    Toml.parse? "flag = true\n".toList = some [("flag", .truth true)] ∧
    ∃ message, readOn programless {} "x.toml" "flag = true\n" .root =
        .error (.report (.config ("Invalid settings in " ++ "x.toml" ++ ": " ++ message)
          (some Hint.invalidToml))) ∧
      TellsKey message "flag" := by
  have hdoc : Toml.parse? "flag = true\n".toList = some [("flag", .truth true)] := by
    have hread : Toml.statements? "flag = true\n".toList =
        some [.pair ["flag"] (.truth true)] := rfl
    rw [Toml.parse?, hread]
    rfl
  have hunknown : ∀ k : Key, "flag" ≠ k.name := by
    have hall : ∀ k ∈ Key.all, "flag" ≠ k.name := by decide
    exact fun k => hall k (Key.mem_all k)
  have hfail : readOn programless {} "x.toml" "flag = true\n" .root =
      .error (rejection "x.toml" (.unknownKey "flag")) := by
    have hpart : Section.root.find? [("flag", .truth true)] = some [("flag", .truth true)] := rfl
    rw [readOn_some hdoc hpart, ofTable_singleton (.unknown hunknown)]
    rfl
  obtain ⟨t, hpart, e, he, message, hfailure, -, -, -, htells⟩ := read_rejected hdoc hfail
  cases hpart
  cases List.mem_singleton.1 he
  exact ⟨hdoc, message, hfail.trans (congrArg Except.error hfailure), htells.2 hunknown⟩

/-- A key with a value of another sort is not even in the message. -/
theorem read_rejected_unnamed :
    readOn programless {} "x.toml" "clean = 1\n" .root =
      .error (.report (.config
        ("Invalid settings in " ++ "x.toml" ++ ": " ++ "invalid type: integer `1`, expected a boolean")
        (some Hint.invalidToml))) ∧
    ¬ "clean".toList <:+: ("Invalid settings in " ++ "x.toml" ++ ": " ++
      "invalid type: integer `1`, expected a boolean").toList := by
  have hdoc : Toml.parse? "clean = 1\n".toList = some [("clean", .integer 1)] := by
    have hread : Toml.statements? "clean = 1\n".toList =
        some [.pair ["clean"] (.integer 1)] := rfl
    rw [Toml.parse?, hread]
    rfl
  have hpart : Section.root.find? [("clean", .integer 1)] = some [("clean", .integer 1)] := rfl
  have hoffends : Offends "clean" (.integer 1) (.wrongSort (.flag .clean) (.integer 1) .truth) := by
    refine .flag .clean fun b hb => ?_
    cases hb
  have hmessage : (Rejection.wrongSort (.flag .clean) (.integer 1) .truth).message =
      "invalid type: integer `1`, expected a boolean" := by decide
  have hclean : ¬ "clean".toList <:+: ("Invalid settings in " ++ "x.toml" ++ ": " ++
      "invalid type: integer `1`, expected a boolean").toList := by
    rw [← Text.occurs_iff]
    decide
  refine ⟨?_, hclean⟩
  rw [readOn_some hdoc hpart, ofTable_singleton hoffends, ← hmessage]
  rfl

end Settings

end LintHooks
