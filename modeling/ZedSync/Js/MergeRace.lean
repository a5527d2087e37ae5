import ZedSync.Js.WriteRace
import ZedSync.Lib.Overlap
import ZedSync.Merge

/-!
Two partial writes to one row on one client. Each reads the row, merges its patch into
what it read, puts the whole merged row and queues it, in separate awaits. Two of them
are two threads that read, put and publish, and what the row and the queue end with
depends on the order of these turns alone.
-/

namespace ZedSync.Js

open Async Json
open Overlap (Precedes Shared)

section Queue

variable {store : Store} (write : QueuedWrite)

/-- The write is the entry its row's slot holds. -/
theorem enqueue_slot (h : ¬ store.DropsNew) :
    ∃ entry, (store.enqueue write).2.queue.find? (·.sameRow write.table write.id) = some entry ∧
      entry.toQueuedWrite = write := by
  unfold Store.enqueue
  split
  · rename_i index hindex
    obtain ⟨hlt, _, hearlier⟩ := List.findIdx?_eq_some_iff_getElem.mp hindex
    refine ⟨write.atSeq (store.queue.getD index default).seq, ?_, rfl⟩
    refine List.find?_eq_some_iff_getElem.mpr ⟨?_, index, by simpa using hlt, by simp, ?_⟩
    · simp [QueueEntry.sameRow, QueuedWrite.atSeq]
    · intro earlier hbefore
      have hother := hearlier earlier hbefore
      simpa [List.getElem_set_ne (Nat.ne_of_gt hbefore)] using hother
  · rename_i hnone
    have hmem := Store.addEntry_keeps store (write.atSeq (store.seq + 1)) h
    dsimp only
    cases hfound : (store.addEntry (write.atSeq (store.seq + 1))).1.find?
        (·.sameRow write.table write.id) with
    | none =>
        have hself := List.find?_eq_none.mp hfound _ hmem
        simp [QueueEntry.sameRow, QueuedWrite.atSeq] at hself
    | some entry =>
        refine ⟨entry, rfl, ?_⟩
        have hsame : entry.sameRow write.table write.id = true := by
          simpa using List.find?_some hfound
        rcases Store.addEntry_subset store _ entry (Or.inl (List.mem_of_find?_eq_some hfound))
          with hold | rfl
        · have hother := List.findIdx?_eq_none_iff.mp hnone entry hold
          rw [hsame] at hother
          cases hother
        · rfl

/-- An enqueue leaves the cap where it was. -/
theorem enqueue_drops : (store.enqueue write).2.DropsNew ↔ store.DropsNew := by
  constructor
  · intro hafter
    by_contra hbefore
    obtain ⟨entry, hentry, -⟩ := Store.enqueue_keeps store write hbefore
    rw [hafter.2.2] at hentry
    cases hentry
  · rintro ⟨hkind, hmax, hqueue⟩
    simp [Store.DropsNew, Store.enqueue, Store.addEntry, hkind, hmax, hqueue]

end Queue

/-- The fields of the merge of a patch into an object. -/
def patched (patch base : List (String × Json)) : List (String × Json) :=
  patch.foldl (mergeEntry (maxDepth - 1)) base

theorem deepMerge_obj (base patch : List (String × Json)) :
    deepMerge (.obj base) (.obj patch) = .obj (patched patch base) := rfl

theorem assign_same {key : String} {value : Json} {fields : List (String × Json)}
    (h : lookup key fields = some value) : assign key value fields = fields := by
  induction fields with
  | nil => cases h
  | cons entry rest ih =>
      obtain ⟨name, old⟩ := entry
      by_cases hname : name = key
      · rw [lookup, if_pos hname] at h
        rw [assign, if_pos hname, ← hname, Option.some.inj h]
      · rw [lookup, if_neg hname] at h
        rw [assign, if_neg hname, ih h]

/-- An object that reads as the patch would make it is not changed by the patch. -/
theorem patched_eq_self {patch base : List (String × Json)}
    (hnames : (patch.map Prod.fst).Nodup)
    (h : ∀ key ∈ patch.map Prod.fst, lookup key base = lookup key (patched patch base)) :
    patched patch base = base := by
  induction patch with
  | nil => rfl
  | cons entry rest ih =>
      obtain ⟨name, value⟩ := entry
      have hentry : mergeEntry (maxDepth - 1) base (name, value) = base := by
        have hname := h name List.mem_cons_self
        rw [patched, lookup_merged _ _ _ hnames] at hname
        unfold mergeEntry
        split
        · rfl
        · rename_i hclean
          rw [if_neg (by simpa using hclean), lookup, if_pos rfl] at hname
          exact assign_same hname
      have hstep : patched ((name, value) :: rest) base = patched rest base := by
        rw [patched, List.foldl_cons, hentry, patched]
      rw [hstep] at h ⊢
      rw [List.map_cons, List.nodup_cons] at hnames
      exact ih hnames.2 fun key hkey => h key (List.mem_cons_of_mem _ hkey)

theorem lookup_patched_congr {patch base other : List (String × Json)}
    (hnames : (patch.map Prod.fst).Nodup) {key : String}
    (h : lookup key base = lookup key other) :
    lookup key (patched patch base) = lookup key (patched patch other) := by
  rw [patched, patched, lookup_merged _ _ _ hnames, lookup_merged _ _ _ hnames, h]

theorem lookup_patched_other {patch : List (String × Json)}
    (hnames : (patch.map Prod.fst).Nodup) {key : String} (h : key ∉ patch.map Prod.fst)
    (base : List (String × Json)) : lookup key (patched patch base) = lookup key base := by
  rw [patched, lookup_merged _ _ _ hnames, (lookup_eq_none_iff key patch).mpr h, ite_self]

theorem atPath_key (key : String) (fields : List (String × Json)) :
    (obj fields).atPath [key] = lookup key fields := by
  rw [atPath_obj]
  cases lookup key fields with
  | none => rfl
  | some value => exact atPath_nil value

/-- The row has in each field of the patch what the patch alone would make of the base. -/
def Carries (patch : List (String × Json)) (base row : Json) : Prop :=
  ∀ key ∈ patch.map Prod.fst, row.atPath [key] = (deepMerge base (.obj patch)).atPath [key]

theorem carries_obj_iff {patch base row : List (String × Json)} :
    Carries patch (.obj base) (.obj row) ↔
      ∀ key ∈ patch.map Prod.fst, lookup key row = lookup key (patched patch base) := by
  simp only [Carries, deepMerge_obj, atPath_key]

section Patches

variable {early late base : List (String × Json)}

/-- What the later patch makes of the row with the earlier one keeps the fields of both. -/
theorem carries_late (hearly : (early.map Prod.fst).Nodup) (hlate : (late.map Prod.fst).Nodup)
    (hdisjoint : ∀ key ∈ late.map Prod.fst, key ∉ early.map Prod.fst)
    {read : List (String × Json)} (hread : read = base ∨ read = patched early base) :
    Carries late (.obj base) (.obj (patched late read)) := by
  rw [carries_obj_iff]
  intro key hkey
  apply lookup_patched_congr hlate
  rcases hread with rfl | rfl
  · rfl
  · exact lookup_patched_other hearly (hdisjoint key hkey) base

/-- The earlier patch is kept exactly when the later write read it, or it changed nothing. -/
theorem carries_early_iff (hlate : (late.map Prod.fst).Nodup)
    (hdisjoint : ∀ key ∈ late.map Prod.fst, key ∉ early.map Prod.fst) (seen : Prop)
    [Decidable seen] :
    Carries early (.obj base)
        (.obj (patched late (if seen then patched early base else base))) ↔
      seen ∨ Carries early (.obj base) (.obj base) := by
  have hother : ∀ key ∈ early.map Prod.fst, ∀ read : List (String × Json),
      lookup key (patched late read) = lookup key read := by
    intro key hkey read
    apply lookup_patched_other hlate
    intro hmem
    exact hdisjoint key hmem hkey
  by_cases hseen : seen
  · rw [if_pos hseen, carries_obj_iff]
    exact iff_of_true (fun key hkey => hother key hkey _) (Or.inl hseen)
  · rw [if_neg hseen, carries_obj_iff, carries_obj_iff, or_iff_right hseen]
    constructor
    · intro h key hkey
      rw [← h key hkey, hother key hkey]
    · intro h key hkey
      rw [hother key hkey, h key hkey]

theorem read_eq_patched (hearly : (early.map Prod.fst).Nodup) {seen : Prop} [Decidable seen]
    (h : seen ∨ Carries early (.obj base) (.obj base)) :
    (if seen then patched early base else base) = patched early base := by
  split
  · rfl
  · rename_i hunseen
    have hcarries := carries_obj_iff.mp (h.resolve_left hunseen)
    exact (patched_eq_self hearly hcarries).symm

/-- The later patch changes nothing of the row with the earlier one exactly when it changes
nothing of the row. -/
theorem patched_patched_iff (hearly : (early.map Prod.fst).Nodup)
    (hlate : (late.map Prod.fst).Nodup)
    (hdisjoint : ∀ key ∈ late.map Prod.fst, key ∉ early.map Prod.fst) :
    patched early base = patched late (patched early base) ↔
      Carries late (.obj base) (.obj base) := by
  have hread : ∀ key ∈ late.map Prod.fst, lookup key (patched early base) = lookup key base :=
    fun key hkey => lookup_patched_other hearly (hdisjoint key hkey) base
  rw [carries_obj_iff]
  constructor
  · intro hsame key hkey
    have hlookup := congrArg (lookup key) hsame
    rwa [hread key hkey, lookup_patched_congr hlate (hread key hkey)] at hlookup
  · intro h
    refine (patched_eq_self hlate ?_).symm
    intro key hkey
    rw [lookup_patched_congr hlate (hread key hkey), hread key hkey]
    exact h key hkey

/-- Both patches are kept and the value queued last is the row, by whether the later write
read and queued after the earlier. -/
theorem kept_iff (hearly : (early.map Prod.fst).Nodup) (hlate : (late.map Prod.fst).Nodup)
    (hdisjoint : ∀ key ∈ late.map Prod.fst, key ∉ early.map Prod.fst) (seen queued : Prop)
    [Decidable seen] [Decidable queued] {cell : List (String × Json)}
    (hcell : cell = patched late (if seen then patched early base else base)) :
    ((Carries early (.obj base) (.obj cell) ∧ Carries late (.obj base) (.obj cell)) ∧
        (if queued then cell else patched early base) = cell) ↔
      (seen ∨ Carries early (.obj base) (.obj base)) ∧
        (queued ∨ Carries late (.obj base) (.obj base)) := by
  have hkeepsLate : Carries late (.obj base) (.obj cell) := by
    rw [hcell]
    apply carries_late hearly hlate hdisjoint
    split
    · exact Or.inr rfl
    · exact Or.inl rfl
  have hkeepsEarly : Carries early (.obj base) (.obj cell) ↔
      seen ∨ Carries early (.obj base) (.obj base) := by
    rw [hcell]
    exact carries_early_iff hlate hdisjoint seen
  rw [and_iff_left hkeepsLate, hkeepsEarly]
  apply and_congr_right
  intro hread
  rw [read_eq_patched hearly hread] at hcell
  by_cases hqueued : queued
  · rw [if_pos hqueued]
    exact iff_of_true rfl (Or.inl hqueued)
  · rw [if_neg hqueued, or_iff_right hqueued, hcell]
    exact patched_patched_iff hearly hlate hdisjoint

end Patches

/-- A write of a patch: an upsert of an object that merges, and is not sent. -/
structure PartialWrite (config : ClientConfig) where
  patch : List (String × Json)
  options : WriteOptions
  names : (patch.map Prod.fst).Nodup
  upserts : options.resolveOp (some (.obj patch)) = .upsert
  merges : options.merge = true
  localOnly : options.mode.getD config.writeMode = .localOnly

namespace PartialWrite

variable {config : ClientConfig}

def program (write : PartialWrite config) (table id : String) :
    Prog session (Outcome CallResult) :=
  Call.program config (.write table id (some (.obj write.patch)) write.options)

/-- The turns of a write: the fourth reads the row, the fifth puts it, the sixth queues it. -/
def readTurn : Nat := 4

def putTurn : Nat := 5

def queueTurn : Nat := 6

def make (writes : Bool → PartialWrite config) (thread : Bool) (fields : List (String × Json)) :
    List (String × Json) :=
  patched (writes thread).patch fields

def queued (write : PartialWrite config) (table id : String) (version : Hlc) (key : String) :
    QueuedWrite :=
  { table := table, id := id, op := .upsert, payload := some (.obj write.patch),
    baseVersion := version, key := key }

/-- The rest of the call after the rest of the write. -/
def reporting (rest : Prog session (Outcome WriteResult)) : Prog session (Outcome CallResult) := do
  return (← rest).map .wrote

def policy (write : PartialWrite config) : ErrorPolicy :=
  write.options.errorPolicy.getD config.errorPolicy

/-- What is left of a write after so many turns; it holds the fields it read, then those it
put. -/
inductive Stage (write : PartialWrite config) (table id : String) :
    Nat → List (String × Json) → Prog session (Outcome CallResult) → Prop
  | entering (held) : Stage write table id 0 held (write.program table id)
  | ticking (held) : Stage write table id 1 held
      (reporting do
        let version ← act (.tick table id)
        let key ← act .nextKey
        writeStamped config (write.queued table id version key) true .localOnly write.policy)
  | keying (held) (version : Hlc) : Stage write table id 2 held
      (reporting do
        let key ← act .nextKey
        writeStamped config (write.queued table id version key) true .localOnly write.policy)
  | reading (held) (version : Hlc) (key : String) : Stage write table id 3 held
      (reporting
        (writeStamped config (write.queued table id version key) true .localOnly write.policy))
  | putting (held) (version : Hlc) (key : String) (existing : StoredRow)
      (hread : existing.row = some (.obj held)) : Stage write table id 4 held
      (reporting
        (writeLocally config (write.queued table id version key) true .localOnly write.policy
          (some existing)))
  | queueing (held) (version : Hlc) (key : String) : Stage write table id 5 held
      (reporting
        (queueAndSend config
          { write.queued table id version key with payload := some (.obj held) } .localOnly
          write.policy))
  | returned (turns : Nat) (held) (outcome : Outcome CallResult) :
      Stage write table id (turns + 6) held (.ret outcome)

/-- The world mirrors the shared row: the cell in the store, what was published in the slot. -/
structure Mirrors (table id : String) (start : World) (shared : Shared (List (String × Json)))
    (world : World) : Prop where
  admitted : world.refusal .canWrite = none
  drops : world.store.DropsNew ↔ start.store.DropsNew
  row : ∃ stored, world.store.getRow table id = some stored ∧
    stored.row = some (.obj shared.cell)
  slot : ¬ start.store.DropsNew → ∀ fields, shared.published = some fields →
    ∃ entry, world.store.queue.find? (·.sameRow table id) = some entry ∧
      entry.payload = some (.obj fields)

theorem mergedRow_obj {existing : StoredRow} {base : List (String × Json)}
    (h : existing.row = some (.obj base)) (patch : List (String × Json)) :
    mergedRow .upsert true (some existing) (some (.obj patch)) =
      some (.obj (patched patch base)) := by
  have hbind : (some existing).bind (·.row) = some (.obj base) := h
  rw [mergedRow, hbind]
  rfl

theorem writeStamped_local (config : ClientConfig) (write : QueuedWrite) (policy : ErrorPolicy) :
    writeStamped config write true .localOnly policy =
      act (.getRow write.table write.id) >>=
        fun existing => writeLocally config write true .localOnly policy existing := by
  rw [writeStamped, if_neg (by decide)]

theorem writeLocally_patch (write : PartialWrite config) (table id : String) (version : Hlc)
    (key : String) {existing : StoredRow} {base : List (String × Json)}
    (h : existing.row = some (.obj base)) (policy : ErrorPolicy) :
    writeLocally config (write.queued table id version key) true .localOnly policy
        (some existing) =
      act (.putRow table id (some (.obj (patched write.patch base)))
          { version := version, dirty := true, syncedAtMs := existing.rowMeta.syncedAtMs }) >>=
        fun _ => queueAndSend config
          { write.queued table id version key with
            payload := some (.obj (patched write.patch base)) } .localOnly policy := by
  have hmerged := mergedRow_obj h write.patch
  unfold writeLocally queued
  dsimp only
  rw [hmerged, if_neg (by decide)]
  rfl

/-- A write that is not sent ends with its enqueue, overflow or not. -/
theorem queueAndSend_local (config : ClientConfig) (write : QueuedWrite)
    (policy : ErrorPolicy) :
    ∃ outcome : Nat × Option QueueEntry → Outcome WriteResult,
      queueAndSend config write .localOnly policy =
        act (.enqueue write) >>= fun reply => .ret (outcome reply) := by
  refine ⟨fun reply => (reply.2.filter fun _ => config.errorPolicy.shouldThrow).elim
    (.ok { status := .localWrite, version := write.baseVersion })
    fun dropped => .error (.queueOverflow dropped), ?_⟩
  unfold queueAndSend
  congr 1
  funext reply
  obtain ⟨seq, dropped⟩ := reply
  dsimp only
  cases dropped.filter fun _ => config.errorPolicy.shouldThrow with
  | some dropped => rfl
  | none => rfl

section Steps

variable {write : PartialWrite config} {table id : String} {start world : World}
  {shared : Shared (List (String × Json))} {thread : Bool}

theorem Mirrors.same {later : World} (h : Mirrors table id start shared world)
    (hstore : later.store = world.store) (hlifecycle : later.lifecycle = world.lifecycle) :
    Mirrors table id start shared later := by
  refine ⟨?_, ?_, ?_, ?_⟩
  · have hsame : later.refusal .canWrite = world.refusal .canWrite := by
      simp only [World.refusal, hlifecycle]
    exact hsame.trans h.admitted
  · exact hstore ▸ h.drops
  · exact hstore ▸ h.row
  · exact hstore ▸ h.slot

/-- The thread and the world after a turn of the shared machine. -/
def Follows (write : PartialWrite config) (table id : String) (start : World)
    (shared : Shared (List (String × Json))) (thread : Bool)
    (advanced : Prog session (Outcome CallResult) × World) : Prop :=
  Stage write table id (shared.taken thread) (shared.held thread) advanced.1 ∧
    Mirrors table id start shared advanced.2

/-- A turn that touches neither the row nor the slot. -/
theorem follows_passes (make : Bool → List (String × Json) → List (String × Json))
    {turns : Nat} (hturns : shared.taken thread = turns)
    (hpasses : turns < 3 ∨ 5 < turns) {rest : Prog session (Outcome CallResult)} {later : World}
    (hstage : Stage write table id (turns + 1) (shared.held thread) rest)
    (hmirrors : Mirrors table id start shared later) :
    Follows write table id start (shared.step make 3 thread) thread (rest, later) := by
  rw [Shared.step_passes (by omega) (by omega) (by omega)]
  refine ⟨?_, ?_⟩
  · dsimp only
    rw [Function.update_self, hturns]
    exact hstage
  · exact ⟨hmirrors.admitted, hmirrors.drops, hmirrors.row, hmirrors.slot⟩

theorem program_advance (hadmitted : world.refusal .canWrite = none) (input : Input) :
    (write.program table id).advance input world =
      (reporting do
        let version ← act (.tick table id)
        let key ← act .nextKey
        writeStamped config (write.queued table id version key) true .localOnly write.policy,
      world) := by
  simp only [program, Call.program, Js.write, requireCapability, act, Prog.call_bind,
    Prog.ret_bind, Prog.advance, perform, hadmitted, write.merges, write.localOnly,
    write.upserts]
  rfl

theorem follows_reads (make : Bool → List (String × Json) → List (String × Json))
    (hturns : shared.taken thread = 3) (hmirrors : Mirrors table id start shared world)
    (version : Hlc) (key : String) (input : Input) :
    Follows write table id start (shared.step make 3 thread) thread
      ((reporting (writeStamped config (write.queued table id version key) true .localOnly
        write.policy)).advance input world) := by
  obtain ⟨stored, hstored, hrow⟩ := hmirrors.row
  have hadvance : (reporting (writeStamped config (write.queued table id version key) true
      .localOnly write.policy)).advance input world =
      (reporting (writeLocally config (write.queued table id version key) true .localOnly
        write.policy (world.store.getRow table id)), world) := by
    rw [writeStamped_local]
    rfl
  rw [hadvance, hstored, Shared.step_reads hturns]
  refine ⟨?_, ?_⟩
  · dsimp only
    rw [Function.update_self, Function.update_self, hturns]
    exact .putting _ _ _ _ hrow
  · exact ⟨hmirrors.admitted, hmirrors.drops, hmirrors.row, hmirrors.slot⟩

theorem follows_puts {make : Bool → List (String × Json) → List (String × Json)}
    (hmake : make thread = patched write.patch) (hturns : shared.taken thread = 4)
    (hmirrors : Mirrors table id start shared world) {existing : StoredRow}
    (hread : existing.row = some (.obj (shared.held thread))) (version : Hlc) (key : String)
    (input : Input) :
    Follows write table id start (shared.step make 3 thread) thread
      ((reporting (writeLocally config (write.queued table id version key) true .localOnly
        write.policy (some existing))).advance input world) := by
  have hadvance : (reporting (writeLocally config (write.queued table id version key) true
      .localOnly write.policy (some existing))).advance input world =
      (reporting (queueAndSend config
          { write.queued table id version key with
            payload := some (.obj (patched write.patch (shared.held thread))) } .localOnly
          write.policy),
        world.putRow table id (some (.obj (patched write.patch (shared.held thread))))
          { version := version, dirty := true, syncedAtMs := existing.rowMeta.syncedAtMs }) := by
    rw [writeLocally_patch write table id version key hread]
    rfl
  rw [hadvance, Shared.step_puts hturns, hmake]
  refine ⟨?_, ?_⟩
  · dsimp only
    rw [Function.update_self, Function.update_self, hturns]
    exact .queueing _ _ _
  · refine ⟨hmirrors.admitted, hmirrors.drops, ⟨_, Store.getRow_setRow_self _ _ _ _, rfl⟩, ?_⟩
    exact hmirrors.slot

theorem follows_queues (make : Bool → List (String × Json) → List (String × Json))
    (hturns : shared.taken thread = 5) (hmirrors : Mirrors table id start shared world)
    (version : Hlc) (key : String) (input : Input) :
    Follows write table id start (shared.step make 3 thread) thread
      ((reporting (queueAndSend config
        { write.queued table id version key with payload := some (.obj (shared.held thread)) }
        .localOnly write.policy)).advance input world) := by
  obtain ⟨outcome, hlocal⟩ := queueAndSend_local config
    { write.queued table id version key with payload := some (.obj (shared.held thread)) }
    write.policy
  rw [hlocal, Shared.step_publishes hturns]
  refine ⟨?_, hmirrors.admitted, (enqueue_drops _).trans hmirrors.drops, ?_, ?_⟩
  · dsimp only
    rw [Function.update_self, hturns]
    exact .returned 0 _ _
  · obtain ⟨stored, hstored, hrow⟩ := hmirrors.row
    refine ⟨stored, ?_, hrow⟩
    rw [← hstored]
    exact congrFun (Store.enqueue_rows _ _) (rowKey table id)
  · intro hkeeps fields hpublished
    obtain rfl := Option.some.inj hpublished
    obtain ⟨entry, hfound, hwrite⟩ :=
      enqueue_slot
        { write.queued table id version key with payload := some (.obj (shared.held thread)) }
        (fun hdrops => hkeeps (hmirrors.drops.mp hdrops))
    exact ⟨entry, hfound, congrArg QueuedWrite.payload hwrite⟩

/-- One turn of a write is one turn of a thread that reads, puts and publishes. -/
theorem Stage.advance (make : Bool → List (String × Json) → List (String × Json))
    {program : Prog session (Outcome CallResult)} (hmake : make thread = patched write.patch)
    (hstage : Stage write table id (shared.taken thread) (shared.held thread) program)
    (hmirrors : Mirrors table id start shared world) (input : Input) :
    Follows write table id start (shared.step make 3 thread) thread
      (program.advance input world) := by
  generalize hturns : shared.taken thread = turns at hstage
  generalize hheld : shared.held thread = held at hstage
  cases hstage with
  | entering =>
      rw [program_advance hmirrors.admitted input]
      exact follows_passes make hturns (by omega) (.ticking _) hmirrors
  | ticking =>
      exact follows_passes make hturns (by omega) (.keying _ _) (hmirrors.same rfl rfl)
  | keying _ version =>
      exact follows_passes make hturns (by omega) (.reading _ _ _) (hmirrors.same rfl rfl)
  | reading _ version key => exact follows_reads make hturns hmirrors version key input
  | putting _ version key existing hread =>
      subst hheld
      exact follows_puts hmake hturns hmirrors hread version key input
  | queueing _ version key =>
      subst hheld
      exact follows_queues make hturns hmirrors version key input
  | returned turns _ outcome =>
      exact follows_passes make hturns (by omega) (.returned (turns + 1) _ _) hmirrors

theorem Stage.turns_of_finished {turns : Nat} {held : List (String × Json)}
    {program : Prog session (Outcome CallResult)} (h : Stage write table id turns held program)
    (hfinished : program.finished = true) : 6 ≤ turns := by
  cases h with
  | entering => cases hfinished
  | ticking => cases hfinished
  | keying => cases hfinished
  | reading _ version key =>
      rw [writeStamped_local] at hfinished
      cases hfinished
  | putting _ version key existing hread =>
      rw [writeLocally_patch write table id version key hread] at hfinished
      cases hfinished
  | queueing _ version key =>
      obtain ⟨outcome, hlocal⟩ := queueAndSend_local config
        { write.queued table id version key with payload := some (.obj held) } write.policy
      rw [hlocal] at hfinished
      cases hfinished
  | returned turns _ outcome => omega

end Steps

/-- Which of the two writes a turn of the schedule is for. -/
def turnOf (turn : Pool.Turn session) : Option Bool :=
  match turn.1 with
  | 0 => some false
  | 1 => some true
  | _ => none

/-- The order in which the two writes take their turns. -/
def order (schedule : List (Pool.Turn session)) : List Bool := schedule.filterMap turnOf

theorem turnOf_eq_some {turn : Pool.Turn session} {thread : Bool}
    (h : turnOf turn = some thread) : turn.1 = thread.toNat := by
  unfold turnOf at h
  split at h
  · obtain rfl := Option.some.inj h
    assumption
  · obtain rfl := Option.some.inj h
    assumption
  · cases h

theorem turnOf_eq_none {turn : Pool.Turn session} (h : turnOf turn = none) : 2 ≤ turn.1 := by
  unfold turnOf at h
  split at h
  · cases h
  · cases h
  · rename_i hzero hone
    by_contra hlt
    have hcases : turn.1 = 0 ∨ turn.1 = 1 := by omega
    exact hcases.elim hzero hone

/-- The pool of the two writes runs as the shared machine does. -/
structure InStep (writes : Bool → PartialWrite config) (table id : String) (start : World)
    (shared : Shared (List (String × Json))) (pool : Pool session (Outcome CallResult)) :
    Prop where
  two : pool.threads.length = 2
  mirrors : Mirrors table id start shared pool.world
  stage : ∀ thread : Bool, ∃ program, pool.threads[thread.toNat]? = some program ∧
    Stage (writes thread) table id (shared.taken thread) (shared.held thread) program

section Pool

variable {writes : Bool → PartialWrite config} {table id : String} {start : World}

theorem InStep.step {shared : Shared (List (String × Json))}
    {pool : Pool session (Outcome CallResult)} (h : InStep writes table id start shared pool)
    (turn : Pool.Turn session) {thread : Bool} (hturn : turnOf turn = some thread) :
    InStep writes table id start (shared.step (make writes) 3 thread) (pool.step turn) := by
  have hindex := turnOf_eq_some hturn
  obtain ⟨program, hprogram, hstage⟩ := h.stage thread
  obtain ⟨hmoved, hmirrors⟩ := Stage.advance (make writes) rfl hstage h.mirrors turn.2
  rw [Pool.step_advance (hindex ▸ hprogram)]
  refine ⟨?_, hmirrors, ?_⟩
  · rw [List.length_set]
    exact h.two
  · intro other
    by_cases hsame : other = thread
    · subst hsame
      refine ⟨_, ?_, hmoved⟩
      rw [hindex, List.getElem?_set_self]
      exact (List.getElem?_eq_some_iff.mp hprogram).1
    · obtain ⟨waiting, hwaiting, hkept⟩ := h.stage other
      obtain ⟨htaken, hheld⟩ := Shared.step_other (make writes) 3 shared hsame
      refine ⟨waiting, ?_, ?_⟩
      · rw [hindex, List.getElem?_set_ne, hwaiting]
        intro heq
        apply hsame
        cases other <;> cases thread <;> simp_all
      · rw [htaken, hheld]
        exact hkept

theorem InStep.run {shared : Shared (List (String × Json))}
    {pool : Pool session (Outcome CallResult)} (h : InStep writes table id start shared pool)
    (schedule : List (Pool.Turn session)) :
    InStep writes table id start
      (Run.final (Shared.step (make writes) 3) shared (order schedule)) (pool.run schedule) := by
  induction schedule generalizing shared pool with
  | nil => exact h
  | cons turn schedule ih =>
      rw [Pool.run_cons, order]
      cases hturn : turnOf turn with
      | none =>
          have hnone : pool.threads[turn.1]? = none :=
            List.getElem?_eq_none (h.two ▸ turnOf_eq_none hturn)
          rw [List.filterMap_cons_none hturn, Pool.step_idle (by simp [hnone])]
          exact ih h
      | some thread =>
          rw [List.filterMap_cons_some hturn, Run.final_cons]
          exact ih (h.step turn hturn)

theorem InStep.begins (writes : Bool → PartialWrite config) {world : World}
    {stored : StoredRow} {base : List (String × Json)}
    (hadmitted : world.refusal .canWrite = none)
    (hstored : world.store.getRow table id = some stored)
    (hobject : stored.row = some (.obj base)) :
    InStep writes table id world (Shared.start base none)
      { world := world,
        threads := [(writes false).program table id, (writes true).program table id] } := by
  refine ⟨rfl, ⟨hadmitted, Iff.rfl, ⟨stored, hstored, hobject⟩, ?_⟩, ?_⟩
  · intro _ fields hpublished
    cases hpublished
  · intro thread
    cases thread with
    | false => exact ⟨_, rfl, .entering _⟩
    | true => exact ⟨_, rfl, .entering _⟩

theorem InStep.turns_of_done {shared : Shared (List (String × Json))}
    {pool : Pool session (Outcome CallResult)} (h : InStep writes table id start shared pool)
    (hdone : pool.Done) (thread : Bool) : 6 ≤ shared.taken thread := by
  obtain ⟨program, hprogram, hstage⟩ := h.stage thread
  exact hstage.turns_of_finished (hdone program (List.mem_of_getElem? hprogram))

end Pool

end PartialWrite

open PartialWrite

variable {config : ClientConfig}

/-- The row carries the fields of both patches, and the queued payload is the row. -/
def BothKept (writes : Bool → PartialWrite config) (table id : String) (base : Json)
    (world : World) : Prop :=
  ∃ stored row, world.store.getRow table id = some stored ∧ stored.row = some row ∧
    (∀ thread, Carries (writes thread).patch base row) ∧
      ∃ entry, world.store.queue.find? (·.sameRow table id) = some entry ∧
        entry.payload = some row

/-- One of the writes puts first. The other reads after that, unless the first changes
nothing; and it queues after the first, unless it changes nothing itself. -/
def TakeTurns (writes : Bool → PartialWrite config) (base : Json) (turns : List Bool) : Prop :=
  ∃ first, Precedes turns first putTurn (!first) putTurn ∧
    (Precedes turns first putTurn (!first) readTurn ∨ Carries (writes first).patch base base) ∧
      (Precedes turns first queueTurn (!first) queueTurn ∨
        Carries (writes (!first)).patch base base)

/-- What is kept, read off the shared machine. -/
theorem bothKept_iff {writes : Bool → PartialWrite config} {table id : String}
    {start world : World} {shared : Shared (List (String × Json))} {base : Json}
    (hmirrors : Mirrors table id start shared world) (hkeeps : ¬ start.store.DropsNew)
    {fields : List (String × Json)} (hpublished : shared.published = some fields)
    (first : Bool) :
    BothKept writes table id base world ↔
      (Carries (writes first).patch base (.obj shared.cell) ∧
          Carries (writes (!first)).patch base (.obj shared.cell)) ∧
        fields = shared.cell := by
  obtain ⟨stored, hstored, hrow⟩ := hmirrors.row
  obtain ⟨entry, hfound, hpayload⟩ := hmirrors.slot hkeeps fields hpublished
  constructor
  · rintro ⟨last, row, hlast, hlastRow, hcarries, slot, hslot, hslotPayload⟩
    obtain rfl : last = stored := Option.some.inj (hlast.symm.trans hstored)
    obtain rfl : row = .obj shared.cell := Option.some.inj (hlastRow.symm.trans hrow)
    obtain rfl : slot = entry := Option.some.inj (hslot.symm.trans hfound)
    refine ⟨⟨hcarries first, hcarries (!first)⟩, ?_⟩
    exact Json.obj.inj (Option.some.inj (hpayload.symm.trans hslotPayload))
  · rintro ⟨⟨hfirst, hsecond⟩, rfl⟩
    refine ⟨stored, _, hstored, hrow, ?_, entry, hfound, hpayload⟩
    intro thread
    rcases Overlap.eq_or_eq_not thread first with rfl | rfl
    · exact hfirst
    · exact hsecond

/-- Two partial writes to one row, with patches over disjoint keys, in any interleaving:
both are kept exactly when they take turns and the store does not drop what it is given. -/
theorem merges_kept_iff (writes : Bool → PartialWrite config) (table id : String)
    (world : World) (schedule : List (Pool.Turn session)) {stored : StoredRow}
    {base : List (String × Json)} (hstored : world.store.getRow table id = some stored)
    (hobject : stored.row = some (.obj base))
    (hdisjoint : ∀ key ∈ (writes false).patch.map Prod.fst,
      key ∉ (writes true).patch.map Prod.fst)
    (hadmitted : world.refusal .canWrite = none) :
    let pool : Pool session (Outcome CallResult) :=
      { world := world,
        threads := [(writes false).program table id, (writes true).program table id] }
    let final := pool.run schedule
    final.Done →
      (BothKept writes table id (.obj base) final.world ↔
        ¬ world.store.DropsNew ∧ TakeTurns writes (.obj base) (order schedule)) := by
  intro pool final hdone
  have hrun := (InStep.begins writes hadmitted hstored hobject).run schedule
  have hafter := Overlap.after_run (make writes) 3 base none (order schedule)
  generalize Run.final (Shared.step (make writes) 3) (Shared.start base none)
    (order schedule) = shared at hrun hafter
  have hturns : ∀ thread, 3 + 3 ≤ (order schedule).count thread := fun thread =>
    hafter.taken thread ▸ hrun.turns_of_done hdone thread
  have hapart : ∀ first key, key ∈ (writes (!first)).patch.map Prod.fst →
      key ∉ (writes first).patch.map Prod.fst := by
    intro first key hkey hmem
    cases first with
    | false => exact hdisjoint key hmem hkey
    | true => exact hdisjoint key hkey hmem
  have hordered : ¬ world.store.DropsNew → ∀ first,
      Precedes (order schedule) first putTurn (!first) putTurn →
        (BothKept writes table id (.obj base) final.world ↔
          (Precedes (order schedule) first putTurn (!first) readTurn ∨
              Carries (writes first).patch (.obj base) (.obj base)) ∧
            (Precedes (order schedule) first queueTurn (!first) queueTurn ∨
              Carries (writes (!first)).patch (.obj base) (.obj base))) := by
    intro hkeeps first hfirst
    obtain ⟨hcell, hpublished⟩ :=
      Overlap.outcome (make writes) 3 base hafter hturns hfirst
    rw [bothKept_iff hrun.mirrors hkeeps hpublished first]
    exact kept_iff (writes first).names (writes (!first)).names (hapart first) _ _ hcell
  constructor
  · intro hkept
    have hkeeps : ¬ world.store.DropsNew := by
      intro hdrops
      obtain ⟨-, -, -, -, -, entry, hfound, -⟩ := hkept
      rw [(hrun.mirrors.drops.mpr hdrops).2.2] at hfound
      cases hfound
    refine ⟨hkeeps, ?_⟩
    rcases Overlap.precedes_total (order schedule) false putTurn true putTurn with hfirst | hfirst
    · exact ⟨false, hfirst, (hordered hkeeps false hfirst).mp hkept⟩
    · exact ⟨true, hfirst, (hordered hkeeps true hfirst).mp hkept⟩
  · rintro ⟨hkeeps, first, hfirst, hturned⟩
    exact (hordered hkeeps first hfirst).mpr hturned

/-- A client over a row with the two fields `a` and `b`. -/
def twoFields : World :=
  { clock := Clock.fresh "tab"
    store := Store.putRow {} "notes" "n1" (some (.obj [("a", .num 0), ("b", .num 0)]))
      { version := { wallMs := 1, counter := 0, actor := "server" }, dirty := false,
        syncedAtMs := some 1 } }

/-- One write sets `a`, the other `b`. -/
def setField (thread : Bool) : PartialWrite {} :=
  { patch := [(if thread then "b" else "a", .num 1)]
    options := { merge := true, mode := some .localOnly }
    names := by simp
    upserts := rfl
    merges := rfl
    localOnly := rfl }

def settingFields : Pool session (Outcome CallResult) :=
  { world := twoFields,
    threads := [(setField false).program "notes" "n1", (setField true).program "notes" "n1"] }

/-- One after the other. -/
theorem fields_kept_in_turn :
    BothKept setField "notes" "n1" (.obj [("a", .num 0), ("b", .num 0)])
      (settingFields.run (turns 0 6 ++ turns 1 6)).world := by
  refine (merges_kept_iff setField "notes" "n1" twoFields (turns 0 6 ++ turns 1 6) rfl rfl
    ?_ rfl ?_).mpr ⟨?_, false, ?_, Or.inl ?_, Or.inl ?_⟩
  · decide
  · decide
  · decide
  · decide
  · decide
  · decide

/-- Both read, then the second write puts and queues, then the first: the row and the queue
end without the field of the second. -/
theorem field_lost :
    (settingFields.run (turns 0 4 ++ turns 1 6 ++ turns 0 2)).Done ∧
      ¬ BothKept setField "notes" "n1" (.obj [("a", .num 0), ("b", .num 0)])
        (settingFields.run (turns 0 4 ++ turns 1 6 ++ turns 0 2)).world := by
  refine ⟨by decide, ?_⟩
  rintro ⟨stored, row, hstored, hrow, hcarries, -⟩
  have hlost : row = .obj [("a", .num 1), ("b", .num 0)] := by
    cases hstored
    exact (Option.some.inj hrow).symm
  have hfield := hcarries true "b" (by simp [setField])
  rw [hlost] at hfield
  cases hfield

end ZedSync.Js
