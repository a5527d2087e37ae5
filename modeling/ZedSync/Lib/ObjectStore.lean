import Mathlib.Data.List.Basic
import Mathlib.Data.Nat.Basic
import Mathlib.Order.Lattice

/-!
Object stores, as a browser database has them: records under distinct keys, read out in
the order of the keys, and a key generator that gives a new record the next number. A
value is put in place of the one its key had.
-/

/-- Records in the ascending order of their keys. -/
structure ObjectStore (κ ν : Type) [LinearOrder κ] where
  records : List (κ × ν)
  ascending : records.Pairwise fun first second => first.1 < second.1

namespace ObjectStore

variable {κ ν : Type} [LinearOrder κ]

/-- A record among others in their order, in place of one of its key. -/
def place (key : κ) (value : ν) : List (κ × ν) → List (κ × ν)
  | [] => [(key, value)]
  | record :: rest =>
      if key < record.1 then (key, value) :: record :: rest
      else if record.1 = key then (key, value) :: rest
      else record :: place key value rest

theorem mem_place {key : κ} {value : ν} {records : List (κ × ν)} {record : κ × ν}
    (h : record ∈ place key value records) : record = (key, value) ∨ record ∈ records := by
  induction records with
  | nil => exact Or.inl (List.mem_singleton.mp h)
  | cons first rest ih =>
      simp only [place] at h
      split_ifs at h with hlt heq
      · exact (List.mem_cons.mp h).imp id id
      · exact (List.mem_cons.mp h).imp id (List.mem_cons_of_mem first)
      · rcases List.mem_cons.mp h with rfl | hrest
        · exact Or.inr List.mem_cons_self
        · exact (ih hrest).imp id (List.mem_cons_of_mem first)

theorem place_ascending (key : κ) (value : ν) {records : List (κ × ν)}
    (h : records.Pairwise fun first second => first.1 < second.1) :
    (place key value records).Pairwise fun first second => first.1 < second.1 := by
  induction records with
  | nil => exact List.pairwise_singleton _ _
  | cons first rest ih =>
      obtain ⟨hfirst, hrest⟩ := List.pairwise_cons.mp h
      simp only [place]
      split_ifs with hlt heq
      · refine List.pairwise_cons.mpr ⟨?_, h⟩
        intro record hmem
        rcases List.mem_cons.mp hmem with rfl | hlater
        · exact hlt
        · exact hlt.trans (hfirst record hlater)
      · rw [heq] at hfirst
        exact List.pairwise_cons.mpr ⟨hfirst, hrest⟩
      · refine List.pairwise_cons.mpr ⟨?_, ih hrest⟩
        intro record hmem
        rcases mem_place hmem with rfl | hlater
        · exact lt_of_le_of_ne (not_lt.mp hlt) heq
        · exact hfirst record hlater

def empty : ObjectStore κ ν := { records := [], ascending := .nil }

def get (store : ObjectStore κ ν) (key : κ) : Option ν :=
  (store.records.find? (·.1 = key)).map Prod.snd

def put (store : ObjectStore κ ν) (key : κ) (value : ν) : ObjectStore κ ν :=
  { records := place key value store.records
    ascending := place_ascending key value store.ascending }

def delete (store : ObjectStore κ ν) (key : κ) : ObjectStore κ ν :=
  { records := store.records.filter (·.1 ≠ key), ascending := store.ascending.filter _ }

def getAll (store : ObjectStore κ ν) : List ν := store.records.map Prod.snd

theorem find?_place (key other : κ) (value : ν) (records : List (κ × ν)) :
    (place key value records).find? (·.1 = other) =
      if key = other then some (key, value) else records.find? (·.1 = other) := by
  induction records with
  | nil => by_cases h : key = other <;> simp [place, h]
  | cons first rest ih =>
      simp only [place]
      by_cases hsame : key = other
      · split_ifs with hlt heq
        · simp [hsame]
        · simp [hsame]
        · have hfirst : ¬ first.1 = other := fun h => heq (h.trans hsame.symm)
          rw [List.find?_cons_of_neg (by simpa using hfirst), ih, if_pos hsame]
      · rw [if_neg hsame] at ih ⊢
        split_ifs with hlt heq
        · rw [List.find?_cons_of_neg (by simpa using hsame)]
        · have hfirst : ¬ first.1 = other := fun h => hsame (heq.symm.trans h)
          rw [List.find?_cons_of_neg (by simpa using hsame),
            List.find?_cons_of_neg (by simpa using hfirst)]
        · by_cases hfirst : first.1 = other
          · simp [hfirst]
          · rw [List.find?_cons_of_neg (by simpa using hfirst),
              List.find?_cons_of_neg (by simpa using hfirst), ih]

theorem get_put (store : ObjectStore κ ν) (key other : κ) (value : ν) :
    (store.put key value).get other = if key = other then some value else store.get other := by
  simp only [get, put, find?_place]
  split <;> rfl

/-- A record of a key past all others goes to the end. -/
theorem place_last {key : κ} {value : ν} {records : List (κ × ν)}
    (h : ∀ record ∈ records, record.1 < key) :
    place key value records = records ++ [(key, value)] := by
  induction records with
  | nil => rfl
  | cons first rest ih =>
      have hfirst := h first List.mem_cons_self
      simp only [place, hfirst.not_gt, hfirst.ne, if_false, List.cons_append]
      rw [ih fun record hmem => h record (List.mem_cons_of_mem _ hmem)]

/-- A record of a key that is there takes its place. -/
theorem place_present {key : κ} {value : ν} {records : List (κ × ν)}
    (hascending : records.Pairwise fun first second => first.1 < second.1)
    (h : ∃ record ∈ records, record.1 = key) :
    place key value records =
      records.map fun record => if record.1 = key then (key, value) else record := by
  induction records with
  | nil =>
      obtain ⟨_, hmem, -⟩ := h
      cases hmem
  | cons first rest ih =>
      obtain ⟨hfirst, hrest⟩ := List.pairwise_cons.mp hascending
      by_cases heq : first.1 = key
      · have hothers : ∀ record ∈ rest, ¬ record.1 = key := fun record hmem hkey =>
          (hfirst record hmem).ne (heq.trans hkey.symm)
        have hmap : (rest.map fun record => if record.1 = key then (key, value) else record) =
            rest := by
          conv_rhs => rw [← List.map_id rest]
          exact List.map_congr_left fun record hmem => if_neg (hothers record hmem)
        simp only [place, heq, lt_irrefl, if_false, if_true, List.map_cons, hmap]
      · obtain ⟨record, hmem, hkey⟩ := h
        have hlater : record ∈ rest := by
          rcases List.mem_cons.mp hmem with rfl | hlater
          · exact absurd hkey heq
          · exact hlater
        have hnot : ¬ key < first.1 := fun hlt =>
          hlt.not_gt (hkey ▸ hfirst record hlater)
        simp only [place, hnot, heq, if_false, List.map_cons]
        rw [ih hrest ⟨record, hlater, hkey⟩]

end ObjectStore

/-- An object store whose keys are numbers that it gives out itself. -/
structure GeneratedStore (ν : Type) where
  objects : ObjectStore Nat ν
  /-- The number the next record gets. -/
  next : Nat
  below : ∀ record ∈ objects.records, record.1 < next

namespace GeneratedStore

variable {ν : Type}

/-- Keys start at one. -/
def empty : GeneratedStore ν :=
  { objects := .empty, next := 1, below := fun _ hmem => by cases hmem }

def add (store : GeneratedStore ν) (value : Nat → ν) : Nat × GeneratedStore ν :=
  (store.next,
    { objects := store.objects.put store.next (value store.next)
      next := store.next + 1
      below := by
        intro record hmem
        rcases ObjectStore.mem_place hmem with rfl | hold
        · exact Nat.lt_succ_self _
        · exact (store.below record hold).trans (Nat.lt_succ_self _) })

/-- A key given from outside moves the generator past it. -/
def put (store : GeneratedStore ν) (key : Nat) (value : ν) : GeneratedStore ν :=
  { objects := store.objects.put key value
    next := max store.next (key + 1)
    below := by
      intro record hmem
      rcases ObjectStore.mem_place hmem with rfl | hold
      · exact (Nat.lt_succ_self _).trans_le (le_max_right _ _)
      · exact (store.below record hold).trans_le (le_max_left _ _) }

def delete (store : GeneratedStore ν) (key : Nat) : GeneratedStore ν :=
  { objects := store.objects.delete key
    next := store.next
    below := fun record hmem => store.below record (List.mem_filter.mp hmem).1 }

def get (store : GeneratedStore ν) (key : Nat) : Option ν := store.objects.get key

def getAll (store : GeneratedStore ν) : List ν := store.objects.getAll

theorem add_records (store : GeneratedStore ν) (value : Nat → ν) :
    (store.add value).2.objects.records =
      store.objects.records ++ [(store.next, value store.next)] :=
  ObjectStore.place_last store.below

end GeneratedStore
