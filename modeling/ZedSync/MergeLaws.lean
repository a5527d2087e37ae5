import Mathlib.Data.List.Nodup
import ZedSync.Merge

/-!
How merges compose (`sdk/src/merge.mjs`). A patch merged a second time changes nothing, and two
patches merged one after the other are mostly one patch: the second merged into the first. The
exception is a path where the first patch puts something else in place of an object and the
second puts an object there again. One after the other, the second object then stands alone; as
one patch it meets what the base has below.
-/

namespace ZedSync

namespace Json

def names (fields : List (String × Json)) : List String := fields.map Prod.fst

theorem names_assign (key : String) (value : Json) (fields : List (String × Json)) :
    names (assign key value fields) =
      if key ∈ names fields then names fields else names fields ++ [key] := by
  induction fields with
  | nil => rfl
  | cons entry rest ih =>
      obtain ⟨first, old⟩ := entry
      by_cases hfirst : first = key
      · subst hfirst
        simp [assign, names]
      · have hne : key ≠ first := fun h => hfirst h.symm
        have hcons : names (assign key value ((first, old) :: rest)) =
            first :: names (assign key value rest) := by
          simp [assign, hfirst, names]
        rw [hcons, ih]
        by_cases hmem : key ∈ names rest
        · simp [names] at hmem ⊢
          simp [hmem]
        · simp [names] at hmem ⊢
          simp [hmem, hne]

/-- An object is its keys, in their order, with their values. -/
theorem fields_ext {left right : List (String × Json)} (hnames : names left = names right)
    (hnodup : (names left).Nodup) (hlookup : ∀ key, lookup key left = lookup key right) :
    left = right := by
  induction left generalizing right with
  | nil =>
      cases right with
      | nil => rfl
      | cons entry rest => cases hnames
  | cons entry rest ih =>
      cases right with
      | nil => cases hnames
      | cons entry' rest' =>
          obtain ⟨key, value⟩ := entry
          obtain ⟨key', value'⟩ := entry'
          obtain ⟨rfl, hrest⟩ := List.cons.inj hnames
          obtain ⟨hkey, hnodup'⟩ := List.nodup_cons.mp hnodup
          have hvalue : value = value' := by simpa [lookup] using hlookup key
          subst hvalue
          rw [ih hrest hnodup' fun name => ?_]
          by_cases hname : key = name
          · subst hname
            have hkey' : key ∉ rest'.map Prod.fst := by
              rw [← hrest]
              exact hkey
            rw [(lookup_eq_none_iff key rest).mpr hkey, (lookup_eq_none_iff key rest').mpr hkey']
          · simpa [lookup, hname] using hlookup name

end Json

open Json

/-- The merged object has the base's keys, and after them those that the patch adds. -/
theorem names_merged (levels : Nat) (base patch : List (String × Json))
    (hnames : (names patch).Nodup) :
    names (patch.foldl (mergeEntry levels) base) =
      names base ++ (names patch).filter fun key => key ∉ pollutingKeys ∧ key ∉ names base := by
  induction patch generalizing base with
  | nil => simp [names]
  | cons entry rest ih =>
      obtain ⟨key, value⟩ := entry
      obtain ⟨hkey, hrest⟩ := List.nodup_cons.mp hnames
      change key ∉ names rest at hkey
      rw [List.foldl_cons, ih _ hrest]
      change _ = names base ++ (key :: names rest).filter _
      by_cases hpolluting : key ∈ pollutingKeys
      · simp [mergeEntry, hpolluting]
      · have hentry : names (mergeEntry levels base (key, value)) =
            if key ∈ names base then names base else names base ++ [key] := by
          simp only [mergeEntry, List.contains_eq_mem, hpolluting, decide_false,
            Bool.false_eq_true, if_false, names_assign]
        rw [hentry]
        by_cases hbase : key ∈ names base
        · simp [hbase]
        · have hfilter : (names rest).filter (fun name =>
              name ∉ pollutingKeys ∧ name ∉ names base ++ [key]) =
              (names rest).filter fun name => name ∉ pollutingKeys ∧ name ∉ names base := by
            apply List.filter_congr
            intro name hname
            have hne : name ≠ key := fun h => hkey (h ▸ hname)
            simp [hne]
          simp only [hbase, if_false, hfilter]
          simp [hpolluting, hbase]

theorem nodup_merged {levels : Nat} {base patch : List (String × Json)}
    (hbase : (names base).Nodup) (hpatch : (names patch).Nodup) :
    (names (patch.foldl (mergeEntry levels) base)).Nodup := by
  rw [names_merged levels base patch hpatch]
  refine hbase.append (hpatch.filter _) ?_
  intro key hmem hadded
  have hnew := (List.mem_filter.mp hadded).2
  simp [hmem] at hnew

/-- What two patches made of one key, one after the other. -/
theorem lookup_merged_twice (levels : Nat) (base : List (String × Json))
    {first second : List (String × Json)} (hfirst : (names first).Nodup)
    (hsecond : (names second).Nodup) {key : String} (hkey : key ∉ pollutingKeys) :
    lookup key (second.foldl (mergeEntry levels) (first.foldl (mergeEntry levels) base)) =
      match lookup key first, lookup key second with
      | some value, some later => some (deepMergeWithin levels
          (some (deepMergeWithin levels (lookup key base) value)) later)
      | some value, none => some (deepMergeWithin levels (lookup key base) value)
      | none, some later => some (deepMergeWithin levels (lookup key base) later)
      | none, none => lookup key base := by
  rw [lookup_merged _ _ _ hsecond, lookup_merged _ _ _ hfirst, if_neg hkey, if_neg hkey]
  cases lookup key first with
  | none => cases lookup key second <;> rfl
  | some value => cases lookup key second <;> rfl

/-- What one patch that was merged before made of it. -/
theorem lookup_merged_patch (levels : Nat) (base : List (String × Json))
    {first second : List (String × Json)} (hfirst : (names first).Nodup)
    (hsecond : (names second).Nodup) {key : String} (hkey : key ∉ pollutingKeys) :
    lookup key ((second.foldl (mergeEntry levels) first).foldl (mergeEntry levels) base) =
      match lookup key first, lookup key second with
      | some value, some later => some (deepMergeWithin levels (lookup key base)
          (deepMergeWithin levels (some value) later))
      | some value, none => some (deepMergeWithin levels (lookup key base) value)
      | none, some later => some (deepMergeWithin levels (lookup key base) later)
      | none, none => lookup key base := by
  rw [lookup_merged _ _ _ (nodup_merged hfirst hsecond), lookup_merged _ _ _ hsecond,
    if_neg hkey, if_neg hkey]
  cases lookup key first with
  | none =>
      cases lookup key second with
      | none => rfl
      | some later =>
          have hstands : deepMergeWithin levels none later = later :=
            deepMergeWithin_stops (Or.inr (Or.inl (by rintro ⟨fields, ⟨⟩⟩)))
          simp [hstands]
  | some value => cases lookup key second <;> rfl

/-- The two orders agree on an object exactly when they agree on every key of both patches. -/
theorem merged_twice_iff {levels : Nat} {base first second : List (String × Json)}
    (hbase : (names base).Nodup) (hfirst : (names first).Nodup)
    (hsecond : (names second).Nodup) :
    second.foldl (mergeEntry levels) (first.foldl (mergeEntry levels) base) =
        (second.foldl (mergeEntry levels) first).foldl (mergeEntry levels) base ↔
      ∀ key ∉ pollutingKeys, ∀ value later, lookup key first = some value →
        lookup key second = some later →
        deepMergeWithin levels (some (deepMergeWithin levels (lookup key base) value)) later =
          deepMergeWithin levels (lookup key base)
            (deepMergeWithin levels (some value) later) := by
  constructor
  · intro hsame key hkey value later hvalue hlater
    have htwice := lookup_merged_twice levels base hfirst hsecond hkey
    rw [hsame, lookup_merged_patch levels base hfirst hsecond hkey, hvalue, hlater] at htwice
    exact (Option.some.inj htwice).symm
  · intro hkeys
    apply fields_ext
    · rw [names_merged _ _ _ hsecond, names_merged _ _ _ hfirst,
        names_merged _ _ _ (nodup_merged hfirst hsecond), names_merged _ _ _ hsecond,
        List.filter_append, List.filter_filter, List.append_assoc]
      congr 2
      apply List.filter_congr
      intro key _
      by_cases hpolluting : key ∈ pollutingKeys
      · simp [hpolluting]
      · by_cases hmem : key ∈ names base
        · simp [hpolluting, hmem]
        · simp [hpolluting, hmem]
    · exact nodup_merged (nodup_merged hbase hfirst) hsecond
    · intro key
      by_cases hkey : key ∈ pollutingKeys
      · simp only [lookup_merged _ _ _ hsecond, lookup_merged _ _ _ hfirst,
          lookup_merged _ _ _ (nodup_merged hfirst hsecond), if_pos hkey]
      · rw [lookup_merged_twice levels base hfirst hsecond hkey,
          lookup_merged_patch levels base hfirst hsecond hkey]
        cases hvalue : lookup key first with
        | none => cases lookup key second <;> rfl
        | some value =>
            cases hlater : lookup key second with
            | none => rfl
            | some later => exact congrArg some (hkeys key hkey value later hvalue hlater)

/-- Where the first patch puts no object, nothing of the base shows through the second. -/
def Composes (levels : Nat) (base : Option Json) (first second : Json) : Prop :=
  ∀ path : List String, (∀ key ∈ path, key ∉ pollutingKeys) → ∀ below value later,
    base.bind (atPath path) = some below → first.atPath path = some value →
      second.atPath path = some later → ¬ HoldsObject (some value) →
        deepMergeWithin (levels - path.length) (some below) later = later

theorem composes_obj_iff {levels : Nat} {base first second : List (String × Json)} :
    Composes (levels + 1) (some (.obj base)) (.obj first) (.obj second) ↔
      ∀ key ∉ pollutingKeys, ∀ value later, lookup key first = some value →
        lookup key second = some later → Composes levels (lookup key base) value later := by
  constructor
  · intro h key hkey value later hvalue hlater path hpath below value' later' hbelow hvalue'
      hlater'
    have hclean : ∀ name ∈ key :: path, name ∉ pollutingKeys := by
      simpa [hkey] using hpath
    have hstands := h (key :: path) hclean below value' later' (by simpa using hbelow)
      (by simpa [hvalue] using hvalue') (by simpa [hlater] using hlater')
    simpa using hstands
  · intro h path hpath below value later hbelow hvalue hlater hobject
    cases path with
    | nil =>
        rw [atPath_nil, Option.some.injEq] at hvalue
        exact absurd (hvalue ▸ holdsObject_obj first) hobject
    | cons key path =>
        obtain ⟨hkey, hrest⟩ := List.forall_mem_cons.mp hpath
        rw [atPath_obj, Option.bind_eq_some_iff] at hvalue hlater
        obtain ⟨value', hvalue', hvalue⟩ := hvalue
        obtain ⟨later', hlater', hlater⟩ := hlater
        have hstands := h key hkey value' later' hvalue' hlater' path hrest below value later
          (by simpa using hbelow) hvalue hlater hobject
        simpa using hstands

theorem holdsObject_of_atPath {value found : Json} {key : String} {path : List String}
    (h : value.atPath (key :: path) = some found) : HoldsObject (some value) := by
  obtain ⟨fields, -, rfl, -, -⟩ := atPath_cons_eq_some h
  exact holdsObject_obj fields

/-- Where the base or the second patch is no object, the second stands as it is. -/
theorem composes_of_stops {levels : Nat} {base : Option Json} {first second : Json}
    (h : ¬ HoldsObject base ∨ ¬ HoldsObject (some second)) :
    Composes levels base first second := by
  intro path _ below value later hbelow _ hlater _
  obtain ⟨outer, rfl, hfound⟩ := Option.bind_eq_some_iff.mp hbelow
  cases path with
  | nil =>
      rw [atPath_nil] at hfound hlater
      rw [← hfound, ← Option.some.inj hlater]
      exact deepMergeWithin_stops (Or.inr h)
  | cons key path =>
      rcases h with hbase | hsecond
      · exact absurd (holdsObject_of_atPath hfound) hbase
      · exact absurd (holdsObject_of_atPath hlater) hsecond

/-- Where the first patch is no object, its place alone decides. -/
theorem composes_replaced_iff {levels : Nat} {base first second : Json}
    (h : ¬ HoldsObject (some first)) :
    Composes levels (some base) first second ↔
      deepMergeWithin levels (some base) second = second := by
  constructor
  · intro hcomposes
    exact hcomposes [] (by simp) base first second (by simp) (by simp) (by simp) h
  · intro hstands path _ below value later hbelow hvalue hlater _
    cases path with
    | nil =>
        simp only [Option.bind_some, atPath_nil, Option.some.injEq] at hbelow hlater
        subst hbelow hlater
        exact hstands
    | cons key path => exact absurd (holdsObject_of_atPath hvalue) h

/-- Two merges are one with the merged patch exactly where the patches compose. -/
theorem mergeWithin_twice_iff (levels : Nat) {base : Option Json} {first second : Json}
    (hbase : ∀ value ∈ base, DistinctNames value) (hfirst : DistinctNames first)
    (hsecond : DistinctNames second) :
    deepMergeWithin levels (some (deepMergeWithin levels base first)) second =
        deepMergeWithin levels base (deepMergeWithin levels (some first) second) ↔
      Composes levels base first second := by
  induction levels generalizing base first second with
  | zero =>
      have hstops (base : Option Json) (patch : Json) : deepMergeWithin 0 base patch = patch :=
        deepMergeWithin_stops (Or.inl rfl)
      simp only [hstops, true_iff]
      intro path _ below value later _ _ _ _
      rw [Nat.zero_sub, hstops]
  | succ levels ih =>
      by_cases hbelow : HoldsObject base
      · by_cases hlater : HoldsObject (some second)
        · by_cases hvalue : HoldsObject (some first)
          · -- Objects all: the keys of both patches decide.
            obtain ⟨below, rfl⟩ := hbelow
            obtain ⟨later, hlater⟩ := hlater
            obtain ⟨value, hvalue⟩ := hvalue
            obtain rfl := Option.some.inj hlater
            obtain rfl := Option.some.inj hvalue
            rw [deepMergeWithin_obj, deepMergeWithin_obj, deepMergeWithin_obj,
              deepMergeWithin_obj, obj.injEq,
              merged_twice_iff (hbase _ rfl [] below rfl) (hfirst [] value rfl)
                (hsecond [] later rfl), composes_obj_iff]
            refine forall₂_congr fun key hkey => forall₂_congr fun value' later' =>
              forall₂_congr fun hvalue hlater => ih ?_ (hfirst.child hvalue) (hsecond.child hlater)
            exact fun below' hbelow => (hbase _ rfl).child hbelow
          · obtain ⟨below, rfl⟩ := hbelow
            have hreplaced (base : Option Json) :
                deepMergeWithin (levels + 1) base first = first :=
              deepMergeWithin_stops (Or.inr (Or.inr hvalue))
            have halone : deepMergeWithin (levels + 1) (some first) second = second :=
              deepMergeWithin_stops (Or.inr (Or.inl hvalue))
            rw [hreplaced, halone, composes_replaced_iff hvalue]
            exact eq_comm
        · have hstops (base : Option Json) :
              deepMergeWithin (levels + 1) base second = second :=
            deepMergeWithin_stops (Or.inr (Or.inr hlater))
          simp only [hstops, true_iff]
          exact composes_of_stops (Or.inr hlater)
      · have hstops (patch : Json) : deepMergeWithin (levels + 1) base patch = patch :=
          deepMergeWithin_stops (Or.inr (Or.inl hbelow))
        simp only [hstops, true_iff]
        exact composes_of_stops (Or.inl hbelow)

/-- A value merged into itself. -/
theorem mergeWithin_self (levels : Nat) {value : Json} (hnames : DistinctNames value) :
    deepMergeWithin levels (some value) value = value := by
  induction levels generalizing value with
  | zero => exact deepMergeWithin_stops (Or.inl rfl)
  | succ levels ih =>
      by_cases hobject : HoldsObject (some value)
      · obtain ⟨fields, hfields⟩ := hobject
        obtain rfl := Option.some.inj hfields
        have hnodup : (names fields).Nodup := hnames [] fields rfl
        rw [deepMergeWithin_obj, obj.injEq]
        apply fields_ext
        · rw [names_merged _ _ _ hnodup]
          have hnone : ((names fields).filter fun key =>
              key ∉ pollutingKeys ∧ key ∉ names fields) = [] := by
            rw [List.filter_eq_nil_iff]
            intro key hmem
            simp [hmem]
          rw [hnone, List.append_nil]
        · exact nodup_merged hnodup hnodup
        · intro key
          rw [lookup_merged _ _ _ hnodup]
          split
          · rfl
          · cases hlookup : lookup key fields with
            | none => rfl
            | some child =>
                dsimp only
                rw [ih (hnames.child hlookup)]
      · exact deepMergeWithin_stops (Or.inr (Or.inr hobject))

/-- A patch composes with itself: it has an object wherever it has one. -/
theorem composes_self (levels : Nat) (base : Option Json) (patch : Json) :
    Composes levels base patch patch := by
  intro path _ below value later _ hvalue hlater hobject
  obtain rfl := Option.some.inj (hvalue.symm.trans hlater)
  exact deepMergeWithin_stops (Or.inr (Or.inr hobject))

/-- For all documents and patches, a patch merged twice changes nothing more, and a second
patch merged after a first is the merge of the two, exactly where the first puts no object and
nothing of the base shows through the second. -/
theorem deepMerge_twice {base first second : Json} (hbase : DistinctNames base)
    (hfirst : DistinctNames first) (hsecond : DistinctNames second) :
    deepMerge (deepMerge base first) first = deepMerge base first ∧
      (deepMerge (deepMerge base first) second = deepMerge base (deepMerge first second) ↔
        Composes maxDepth (some base) first second) := by
  have hsome : ∀ value ∈ some base, DistinctNames value := by
    rintro _ ⟨⟩
    exact hbase
  constructor
  · have htwice := (mergeWithin_twice_iff maxDepth hsome hfirst hfirst).mpr
      (composes_self maxDepth (some base) first)
    rw [mergeWithin_self maxDepth hfirst] at htwice
    exact htwice
  · exact mergeWithin_twice_iff maxDepth hsome hfirst hsecond

/-- A patch that clears what another one sets again. -/
def clearingPatch : Json := obj [("meta", null)]

theorem sampleDocument_distinct : DistinctNames sampleDocument := by
  apply everywhere_singleton
  · simp
  · rw [everywhere_obj_iff]
    refine ⟨by simp, ?_⟩
    intro key value hlookup
    apply everywhere_of_not_obj
    rintro ⟨fields, hfields⟩
    cases hfields
    simp only [lookup] at hlookup
    split_ifs at hlookup <;> cases hlookup

/-- Cleared and set again, an object stands alone; the merged patch leaves what it had. -/
theorem cleared_object_stands_alone :
    deepMerge (deepMerge sampleDocument clearingPatch) clearingPatch =
        deepMerge sampleDocument clearingPatch ∧
      deepMerge (deepMerge sampleDocument clearingPatch) samplePatch ≠
        deepMerge sampleDocument (deepMerge clearingPatch samplePatch) := by
  have hclearing : DistinctNames clearingPatch := everywhere_singleton (by simp) (null_everywhere _)
  have hsample : DistinctNames samplePatch := samplePatch_everywhere (by simp) (by simp)
  obtain ⟨hretried, htwice⟩ := deepMerge_twice sampleDocument_distinct hclearing hsample
  refine ⟨hretried, ?_⟩
  rw [Ne, htwice]
  intro hcomposes
  have hstands := hcomposes ["meta"] (by decide) (obj [("keep", num 1), ("title", str "t")]) null
    (obj [("title", null)]) rfl rfl rfl (by rintro ⟨fields, ⟨⟩⟩)
  have hkept := congrArg (atPath ["keep"]) hstands
  cases hkept

end ZedSync
