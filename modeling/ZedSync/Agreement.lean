import ZedSync.Core

/-!
How far the three ports of the core agree. They compare a stamp's time alike;
on a tie Rust compares the actors' UTF-8 bytes, JavaScript and Dart their UTF-16
code units. These two orders differ exactly where a supplementary code point
meets one of the block 0xE000..0xFFFF, and only there do the decisions part.
-/

namespace ZedSync

open Lexicographic

/-- A stamp the wire schema admits (`protocol/change-event.schema.json`). -/
structure Hlc.OnWire (stamp : Hlc) : Prop where
  wall : stamp.wallMs ≤ 9007199254740991
  counter : stamp.counter ≤ 4294967295
  actor : 1 ≤ stamp.actor.length ∧ stamp.actor.length ≤ 256

/-- One code point above the surrogates in the basic plane, the other supplementary. -/
def Astride (c d : Char) : Prop :=
  (0xE000 ≤ c.toNat ∧ c.toNat < 0x10000 ∧ 0x10000 ≤ d.toNat) ∨
  (0xE000 ≤ d.toNat ∧ d.toNat < 0x10000 ∧ 0x10000 ≤ c.toNat)

instance (c d : Char) : Decidable (Astride c d) :=
  inferInstanceAs (Decidable (_ ∨ _))

/-- The stamps tie up to the actors, whose first differing characters are astride. -/
def Skewed (a b : Hlc) : Prop :=
  a.wallMs = b.wallMs ∧ a.counter = b.counter ∧
    ∃ c d, firstDiff a.actor.toList b.actor.toList = some (c, d) ∧ Astride c d

theorem rank_lt_agree_iff (c d : Char) :
    (c.toNat < d.toNat ↔ utf16Rank c < utf16Rank d) ↔ ¬ Astride c d := by
  have hc := scalar_bound c
  have hd := scalar_bound d
  simp only [Astride, utf16Rank]
  repeat' split
  all_goals omega

theorem units_lt_agree_iff (s t : String) :
    (utf8Bytes s < utf8Bytes t ↔ utf16Units s < utf16Units t) ↔
      ∀ c d, firstDiff s.toList t.toList = some (c, d) → ¬ Astride c d := by
  rw [utf8Bytes_lt_iff, utf16Units_lt_iff,
    map_lt_agree_iff Char.toNat utf16Rank utf8Code.rank_injective utf16Rank_injective]
  exact forall₃_congr fun c d _ => rank_lt_agree_iff c d

theorem compareOfLessAndEq_eq_iff {α β : Type*} [LT α] [DecidableLT α] [DecidableEq α]
    [LT β] [DecidableLT β] [DecidableEq β] {a b : α} {c d : β} (heq : a = b ↔ c = d) :
    compareOfLessAndEq a b = compareOfLessAndEq c d ↔ (a < b ↔ c < d) := by
  simp only [compareOfLessAndEq, heq]
  by_cases hlt : a < b <;> by_cases hlt' : c < d <;> by_cases hcd : c = d <;>
    simp [hlt, hlt', hcd]

theorem strCmp_agree_iff (s t : String) :
    Rust.strCmp s t = compareOfLessAndEq (utf16Units s) (utf16Units t) ↔
      ∀ c d, firstDiff s.toList t.toList = some (c, d) → ¬ Astride c d := by
  have heq : utf8Bytes s = utf8Bytes t ↔ utf16Units s = utf16Units t :=
    utf8Bytes_injective.eq_iff.trans utf16Units_injective.eq_iff.symm
  rw [Rust.strCmp, compareOfLessAndEq_eq_iff heq, units_lt_agree_iff]

/-- The sign of `compareHlc`, as an ordering. -/
theorem Js.sign_compareHlc (a b : Hlc) :
    compare (Js.compareHlc a b) 0 =
      (compare a.wallMs b.wallMs).then ((compare a.counter b.counter).then
        (compareOfLessAndEq (utf16Units a.actor) (utf16Units b.actor))) := by
  simp only [Js.compareHlc, Js.strLt]
  by_cases hwall : a.wallMs = b.wallMs
  · by_cases hcounter : a.counter = b.counter
    · by_cases hactor : a.actor = b.actor
      · simp [hwall, hcounter, hactor, compareOfLessAndEq]
      · have hunits := utf16Units_injective.ne hactor
        by_cases hlt : utf16Units a.actor < utf16Units b.actor <;>
          simp [hwall, hcounter, hactor, hunits, hlt, compareOfLessAndEq] <;> rfl
    · rcases Nat.lt_or_gt_of_ne hcounter with hlt | hlt
      · simp [hwall, hcounter, hlt, compare_lt_iff_lt.mpr hlt]
        rfl
      · simp [hwall, hcounter, hlt.not_gt, compare_gt_iff_gt.mpr hlt]
        rfl
  · rcases Nat.lt_or_gt_of_ne hwall with hlt | hlt
    · simp [hwall, hlt, compare_lt_iff_lt.mpr hlt]
      rfl
    · simp [hwall, hlt.not_gt, compare_gt_iff_gt.mpr hlt]
      rfl

/-- The orders of Rust and JavaScript agree on every pair that is not skewed. -/
theorem cmp_agree_iff (a b : Hlc) :
    Rust.cmp a b = compare (Js.compareHlc a b) 0 ↔ ¬ Skewed a b := by
  rw [Js.sign_compareHlc, Rust.cmp, Skewed]
  by_cases hwall : a.wallMs = b.wallMs
  · by_cases hcounter : a.counter = b.counter
    · simp [hwall, hcounter, strCmp_agree_iff]
    · rcases Nat.lt_or_gt_of_ne hcounter with hlt | hlt
      · simp [hwall, hcounter, compare_lt_iff_lt.mpr hlt]
      · simp [hwall, hcounter, compare_gt_iff_gt.mpr hlt]
  · rcases Nat.lt_or_gt_of_ne hwall with hlt | hlt
    · simp [hwall, compare_lt_iff_lt.mpr hlt]
    · simp [hwall, compare_gt_iff_gt.mpr hlt]

theorem Rust.cmp_eq_iff (a b : ZedSync.Hlc) : Rust.cmp a b = .eq ↔ a = b := by
  have hbytes : utf8Bytes a.actor = utf8Bytes b.actor ↔ a.actor = b.actor :=
    utf8Bytes_injective.eq_iff
  have hstr : Rust.strCmp a.actor b.actor = .eq ↔ a.actor = b.actor := by
    rw [← hbytes, Rust.strCmp, compareOfLessAndEq]
    by_cases hlt : utf8Bytes a.actor < utf8Bytes b.actor
    · simp [hlt, hlt.ne]
    · simp [hlt]
  simp [Rust.cmp, Ordering.then_eq_eq, hstr, Hlc.ext_iff]

/-- The orders of Rust and JavaScript put the same stamps above, unless skewed. -/
theorem cmp_gt_agree_iff (a b : Hlc) :
    (Rust.cmp a b = .gt ↔ 0 < Js.compareHlc a b) ↔ ¬ Skewed a b := by
  have hsame : compare (Js.compareHlc a b) 0 = .eq ↔ Rust.cmp a b = .eq := by
    rw [compare_eq_iff_eq, Js.compareHlc_zero_iff, Rust.cmp_eq_iff]
  rw [← cmp_agree_iff, ← compare_gt_iff_gt]
  cases hrust : Rust.cmp a b <;> cases hjs : compare (Js.compareHlc a b) 0 <;>
    simp [hrust, hjs] at hsame ⊢

/-- The decision on a row for each outcome of the comparison. -/
def Reconcile.ofOrdering (dirty : Bool) : Ordering → Reconcile
  | .lt => .ignore .stale
  | .eq => .ignore .alreadyApplied
  | .gt => if dirty then .conflict else .apply

theorem Reconcile.ofOrdering_injective (dirty : Bool) :
    Function.Injective (Reconcile.ofOrdering dirty) := by
  intro first second h
  cases dirty <;> cases first <;> cases second <;> first | rfl | cases h

theorem Rust.reconcile_some (row : LocalRow) (incoming : ChangeEvent) :
    Rust.reconcile (some row) incoming =
      .ofOrdering row.dirty (Rust.cmp incoming.version row.version) := by
  cases hcmp : Rust.cmp incoming.version row.version <;>
    simp [Rust.reconcile, Reconcile.ofOrdering, hcmp]

theorem Js.reconcile_some (row : LocalRow) (incoming : ChangeEvent) :
    Js.reconcile (some row) incoming =
      .ofOrdering row.dirty (compare (Js.compareHlc incoming.version row.version) 0) := by
  rcases lt_trichotomy (Js.compareHlc incoming.version row.version) 0 with h | h | h
  · simp [Js.reconcile, Reconcile.ofOrdering, h, compare_lt_iff_lt.mpr h]
  · simp [Js.reconcile, Reconcile.ofOrdering, h]
  · simp [Js.reconcile, Reconcile.ofOrdering, h.not_gt, h.ne', compare_gt_iff_gt.mpr h]

theorem Dart.reconcile_eq : Dart.reconcile = Js.reconcile := by
  funext localRow incoming
  simp only [Dart.reconcile, Js.reconcile, Dart.compareTo_eq_compareHlc]

theorem reconcile_agree_iff (localRow : Option LocalRow) (incoming : ChangeEvent) :
    Rust.reconcile localRow incoming = Js.reconcile localRow incoming ↔
      ∀ row, localRow = some row → ¬ Skewed incoming.version row.version := by
  cases localRow with
  | none => cases hop : incoming.op <;> simp [Rust.reconcile, Js.reconcile, hop]
  | some row =>
      rw [Rust.reconcile_some, Js.reconcile_some, (Reconcile.ofOrdering_injective _).eq_iff,
        cmp_agree_iff]
      simp

/-- The version an ack leaves, as the Dart port reports it. -/
def AckOutcome.adopted : AckOutcome → Option Hlc
  | .adopt version => some version
  | .superseded => none

theorem Dart.onAck_eq (localRow : LocalRow) (ack : WriteAck) :
    Dart.onAck localRow ack.committedVersion = (Js.onAck localRow ack).adopted := by
  simp only [Dart.onAck, Js.onAck, Dart.compareTo_eq_compareHlc]
  split <;> rfl

theorem onAck_agree_iff (localRow : LocalRow) (ack : WriteAck) :
    Rust.onAck localRow ack = Js.onAck localRow ack ↔
      ¬ Skewed localRow.version ack.committedVersion := by
  rw [← cmp_gt_agree_iff, Rust.onAck, Js.onAck]
  by_cases hrust : Rust.cmp localRow.version ack.committedVersion = .gt <;>
    by_cases hjs : Js.compareHlc localRow.version ack.committedVersion > 0 <;>
      simp [hrust, hjs]

/-- The ack answers the write in the slot, and the row is still at its base version. -/
structure ExactAck (currentId currentKey settlingKey : String) (localRow : LocalRow)
    (baseVersion : Hlc) (ackId : String) : Prop where
  id : currentId = ackId
  key : currentKey = settlingKey
  version : localRow.version = baseVersion

/-- What an ack of the current slot settles, by its outcome. -/
def AckOutcome.settlement (outcome : AckOutcome) : QueuedAckSettlement :=
  { adopt := outcome.adopted, retireCurrentSlot := outcome.adopted.isSome }

theorem AckOutcome.settlement_injective : Function.Injective AckOutcome.settlement := by
  intro first second h
  cases first <;> cases second <;> simp_all [AckOutcome.settlement, AckOutcome.adopted]

/-- The queue record of the Rust port with the payload the clients keep in it. -/
def Rust.QueuedWrite.withPayload (write : Rust.QueuedWrite) (payload : Option Json) :
    Js.QueuedWrite :=
  { table := write.table, id := write.id, op := write.op, payload := payload,
    baseVersion := write.baseVersion, key := write.key }

section Settlement

variable {localRow : LocalRow} {settlingKey : String} {baseVersion : ZedSync.Hlc} {ack : WriteAck}

theorem Rust.settleQueuedAck_exact {current : Rust.QueuedWrite}
    (h : ExactAck current.id current.key settlingKey localRow baseVersion ack.id) :
    Rust.settleQueuedAck localRow current settlingKey baseVersion ack =
      (Rust.onAck localRow ack).settlement := by
  simp only [Rust.settleQueuedAck, h.id, h.key, h.version, beq_self_eq_true, Bool.and_self,
    if_true]
  cases Rust.onAck localRow ack <;> rfl

theorem Rust.settleQueuedAck_inexact {current : Rust.QueuedWrite}
    (h : ¬ ExactAck current.id current.key settlingKey localRow baseVersion ack.id) :
    Rust.settleQueuedAck localRow current settlingKey baseVersion ack =
      AckOutcome.superseded.settlement := by
  have hslot : (current.id == ack.id && current.key == settlingKey &&
      localRow.version == baseVersion) = false := by
    by_contra hexact
    simp only [Bool.not_eq_false, Bool.and_eq_true, beq_iff_eq] at hexact
    exact h ⟨hexact.1.1, hexact.1.2, hexact.2⟩
  simp [Rust.settleQueuedAck, hslot, AckOutcome.settlement, AckOutcome.adopted]

theorem Js.settleQueuedAck_exact {current : Js.QueuedWrite}
    (h : ExactAck current.id current.key settlingKey localRow baseVersion ack.id) :
    Js.settleQueuedAck localRow current settlingKey baseVersion ack =
      (Js.onAck localRow ack).settlement := by
  have hversion := (Js.compareHlc_zero_iff _ _).mpr h.version
  simp only [Js.settleQueuedAck, h.id, h.key, hversion, beq_self_eq_true, Bool.and_self,
    bne_self_eq_false, Bool.not_true, Bool.or_self, Bool.false_eq_true, if_false]
  cases Js.onAck localRow ack <;> rfl

theorem Js.settleQueuedAck_inexact {current : Js.QueuedWrite}
    (h : ¬ ExactAck current.id current.key settlingKey localRow baseVersion ack.id) :
    Js.settleQueuedAck localRow current settlingKey baseVersion ack =
      AckOutcome.superseded.settlement := by
  have hslot : (!(current.id == ack.id && current.key == settlingKey) ||
      Js.compareHlc localRow.version baseVersion != 0) = true := by
    by_contra hexact
    simp only [Bool.not_eq_true, Bool.or_eq_false_iff, Bool.not_eq_false', Bool.and_eq_true,
      beq_iff_eq, bne_eq_false_iff_eq, Js.compareHlc_zero_iff] at hexact
    exact h ⟨hexact.1.1, hexact.1.2, hexact.2⟩
  exact if_pos hslot

theorem Dart.settleQueuedAck_eq {currentId currentKey ackId : String} {committed : Hlc}
    (current : Js.QueuedWrite) (hid : current.id = currentId) (hkey : current.key = currentKey) :
    Dart.settleQueuedAck localRow currentId currentKey settlingKey baseVersion ackId committed =
      Js.settleQueuedAck localRow current settlingKey baseVersion
        { id := ackId, committedVersion := committed } := by
  have honAck := Dart.onAck_eq localRow { id := ackId, committedVersion := committed }
  simp only [Dart.settleQueuedAck, Js.settleQueuedAck, hid, hkey, Dart.compareTo_eq_compareHlc,
    honAck]
  split
  · rfl
  · cases Js.onAck localRow { id := ackId, committedVersion := committed } <;> rfl

theorem Dart.settleQueuedAck_exact {currentId currentKey ackId : String} {committed : Hlc}
    (h : ExactAck currentId currentKey settlingKey localRow baseVersion ackId) :
    Dart.settleQueuedAck localRow currentId currentKey settlingKey baseVersion ackId committed =
      (Js.onAck localRow { id := ackId, committedVersion := committed }).settlement := by
  let current : Js.QueuedWrite :=
    { (default : Js.QueuedWrite) with id := currentId, key := currentKey }
  rw [Dart.settleQueuedAck_eq current rfl rfl]
  exact Js.settleQueuedAck_exact h

theorem settleQueuedAck_agree_iff (current : Rust.QueuedWrite) (payload : Option Json) :
    Rust.settleQueuedAck localRow current settlingKey baseVersion ack =
        Js.settleQueuedAck localRow (current.withPayload payload) settlingKey baseVersion ack ↔
      (ExactAck current.id current.key settlingKey localRow baseVersion ack.id →
        ¬ Skewed localRow.version ack.committedVersion) := by
  by_cases hexact : ExactAck current.id current.key settlingKey localRow baseVersion ack.id
  · rw [Rust.settleQueuedAck_exact hexact, Js.settleQueuedAck_exact hexact,
      AckOutcome.settlement_injective.eq_iff, onAck_agree_iff]
    simp [hexact]
  · rw [Rust.settleQueuedAck_inexact hexact, Js.settleQueuedAck_inexact hexact]
    simp [hexact]

end Settlement

/-- The three ports order two stamps alike, and decide alike on a change, an ack
and a queued ack, exactly when the stamps they compare are not skewed. -/
theorem ports_agree_iff (a b : Hlc) (existing : Option LocalRow) (incoming : ChangeEvent)
    (localRow : LocalRow) (ack : WriteAck) (current : Rust.QueuedWrite) (payload : Option Json)
    (settlingKey : String) (baseVersion : Hlc) :
    ((Rust.cmp a b = compare (Js.compareHlc a b) 0 ∧
        Rust.cmp a b = compare (Dart.compareTo a b) 0) ↔ ¬ Skewed a b) ∧
    ((Rust.reconcile existing incoming = Js.reconcile existing incoming ∧
        Rust.reconcile existing incoming = Dart.reconcile existing incoming) ↔
      ∀ row, existing = some row → ¬ Skewed incoming.version row.version) ∧
    ((Rust.onAck localRow ack = Js.onAck localRow ack ∧
        (Rust.onAck localRow ack).adopted = Dart.onAck localRow ack.committedVersion) ↔
      ¬ Skewed localRow.version ack.committedVersion) ∧
    ((Rust.settleQueuedAck localRow current settlingKey baseVersion ack =
          Js.settleQueuedAck localRow (current.withPayload payload) settlingKey baseVersion ack ∧
        Rust.settleQueuedAck localRow current settlingKey baseVersion ack =
          Dart.settleQueuedAck localRow current.id current.key settlingKey baseVersion ack.id
            ack.committedVersion) ↔
      (ExactAck current.id current.key settlingKey localRow baseVersion ack.id →
        ¬ Skewed localRow.version ack.committedVersion)) := by
  refine ⟨?_, ?_, ?_, ?_⟩
  · rw [Dart.compareTo_eq_compareHlc, and_self_iff, cmp_agree_iff]
  · rw [Dart.reconcile_eq, and_self_iff, reconcile_agree_iff]
  · rw [Dart.onAck_eq, ← onAck_agree_iff]
    exact and_iff_left_of_imp fun h => by rw [h]
  · rw [Dart.settleQueuedAck_eq (current.withPayload payload) (rfl : _ = current.id)
      (rfl : _ = current.key), and_self_iff, settleQueuedAck_agree_iff]

/-- A row stamped by an actor of the basic plane, above the surrogates. -/
def basicRow : LocalRow :=
  { version := { wallMs := 1, counter := 0, actor := "\uFF61" }, dirty := false }

/-- A change stamped at the same time by an actor beyond the basic plane. -/
def supplementaryChange : ChangeEvent :=
  { table := "todos", op := .upsert, id := "a",
    version := { wallMs := 1, counter := 0, actor := "𐀀" }, row := some (.str "other"),
    writeKey := none }

/-- Rust takes the change for newer than the row, JavaScript and Dart for older. -/
theorem actors_order_apart :
    basicRow.version.OnWire ∧ supplementaryChange.version.OnWire ∧
      Rust.cmp supplementaryChange.version basicRow.version = .gt ∧
      Js.compareHlc supplementaryChange.version basicRow.version = -1 ∧
      Dart.compareTo supplementaryChange.version basicRow.version = -1 ∧
      Rust.reconcile (some basicRow) supplementaryChange = .apply ∧
      Js.reconcile (some basicRow) supplementaryChange = .ignore .stale ∧
      Dart.reconcile (some basicRow) supplementaryChange = .ignore .stale := by
  exact ⟨⟨by decide, by decide, by decide⟩, ⟨by decide, by decide, by decide⟩, by decide,
    by decide, by decide, by decide, by decide, by decide⟩

end ZedSync
