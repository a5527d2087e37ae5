import Mathlib.Data.List.Basic
import ZedSync.Json

/-!
What a merge does along a key path. Where the patch and the base both hold an object the
merge goes on below it, key by key; everywhere else on the way the patch's value stands as
it is. The keys that could poison a prototype chain are filtered only where the merge goes
on, so a subtree of the patch that stands as it is keeps those it has.
-/

namespace ZedSync

namespace Json

/-- The value at a key path, through objects only. -/
def atPath : List String → Json → Option Json
  | [], value => some value
  | key :: path, .obj fields => (lookup key fields).bind (atPath path)
  | _ :: _, _ => none

@[simp] theorem atPath_nil (value : Json) : value.atPath [] = some value := by
  cases value <;> rfl

@[simp] theorem atPath_obj (key : String) (path : List String) (fields : List (String × Json)) :
    (obj fields).atPath (key :: path) = (lookup key fields).bind (atPath path) := rfl

/-- A value is present there and is an object. -/
def HoldsObject (value : Option Json) : Prop := ∃ fields, value = some (obj fields)

theorem holdsObject_obj (fields : List (String × Json)) : HoldsObject (some (obj fields)) :=
  ⟨fields, rfl⟩

theorem atPath_cons_eq_some {value : Json} {key : String} {path : List String} {found : Json}
    (h : value.atPath (key :: path) = some found) :
    ∃ fields child, value = obj fields ∧ lookup key fields = some child ∧
      child.atPath path = some found := by
  cases value with
  | obj fields =>
      rw [atPath_obj, Option.bind_eq_some_iff] at h
      obtain ⟨child, hlookup, hchild⟩ := h
      exact ⟨fields, child, rfl, hlookup, hchild⟩
  | null | bool _ | num _ | str _ | arr _ => cases h

/-- Every object of a value, outside arrays, meets a condition on its path and fields. -/
def Everywhere (ok : List String → List (String × Json) → Prop) (value : Json) : Prop :=
  ∀ path fields, value.atPath path = some (obj fields) → ok path fields

section Everywhere

variable {ok : List String → List (String × Json) → Prop}

theorem everywhere_obj_iff {fields : List (String × Json)} :
    Everywhere ok (obj fields) ↔ ok [] fields ∧
      ∀ key value, lookup key fields = some value →
        Everywhere (fun path => ok (key :: path)) value := by
  constructor
  · intro h
    refine ⟨h [] fields rfl, ?_⟩
    intro key value hlookup path below hpath
    apply h (key :: path) below
    simp [hlookup, hpath]
  · rintro ⟨hhere, hchild⟩ path below hpath
    cases path with
    | nil =>
        simp only [atPath_nil, Option.some.injEq, obj.injEq] at hpath
        exact hpath ▸ hhere
    | cons key path =>
        simp only [atPath_obj, Option.bind_eq_some_iff] at hpath
        obtain ⟨value, hlookup, hbelow⟩ := hpath
        exact hchild key value hlookup path below hbelow

theorem Everywhere.child {fields : List (String × Json)} {key : String} {value : Json}
    (h : Everywhere ok (obj fields)) (hlookup : lookup key fields = some value) :
    Everywhere (fun path => ok (key :: path)) value :=
  (everywhere_obj_iff.mp h).2 key value hlookup

theorem everywhere_of_not_obj {value : Json} (h : ¬ HoldsObject (some value)) :
    Everywhere ok value := by
  intro path fields hpath
  cases path with
  | nil =>
      rw [atPath_nil] at hpath
      exact absurd (hpath ▸ holdsObject_obj fields) h
  | cons key path =>
      obtain ⟨outer, -, rfl, -, -⟩ := atPath_cons_eq_some hpath
      exact absurd (holdsObject_obj outer) h

end Everywhere

/-- No object names a key twice, as none does that JavaScript builds. -/
def DistinctNames : Json → Prop := Everywhere fun _ fields => (fields.map Prod.fst).Nodup

/-- At most so many objects lie one inside the other. -/
def NestedWithin (levels : Nat) : Json → Prop := Everywhere fun path _ => path.length < levels

/-- No own key of an object outside arrays is a polluting one. -/
def Clean : Json → Prop :=
  Everywhere fun _ fields => ∀ key ∈ pollutingKeys, lookup key fields = none

theorem lookup_assign (key name : String) (value : Json) (fields : List (String × Json)) :
    lookup key (assign name value fields) =
      if name = key then some value else lookup key fields := by
  induction fields with
  | nil => rfl
  | cons entry rest ih =>
      obtain ⟨first, old⟩ := entry
      by_cases hfirst : first = name
      · subst hfirst
        by_cases hkey : first = key
        · simp [assign, lookup, hkey]
        · simp [assign, lookup, hkey]
      · by_cases hkey : first = key
        · subst hkey
          have hne : name ≠ first := fun h => hfirst h.symm
          simp [assign, lookup, hfirst, hne]
        · simp [assign, lookup, hfirst, hkey, ih]

theorem lookup_eq_none_iff (key : String) (fields : List (String × Json)) :
    lookup key fields = none ↔ key ∉ fields.map Prod.fst := by
  induction fields with
  | nil => simp [lookup]
  | cons entry rest ih =>
      obtain ⟨first, value⟩ := entry
      by_cases hkey : first = key
      · simp [lookup, hkey]
      · have hne : key ≠ first := fun h => hkey h.symm
        simpa [lookup, hkey, hne] using ih

end Json

open Json

/-- One key of the patch. -/
def mergeEntry (levels : Nat) (out : List (String × Json)) (entry : String × Json) :
    List (String × Json) :=
  if pollutingKeys.contains entry.1 then out
  else assign entry.1 (deepMergeWithin levels (lookup entry.1 out) entry.2) out

theorem deepMergeWithin_obj (levels : Nat) (base patch : List (String × Json)) :
    deepMergeWithin (levels + 1) (some (.obj base)) (.obj patch) =
      .obj (patch.foldl (mergeEntry levels) base) := rfl

/-- Where the merge does not go on, the patch stands as it is. -/
theorem deepMergeWithin_stops {levels : Nat} {base : Option Json} {patch : Json}
    (h : levels = 0 ∨ ¬ HoldsObject base ∨ ¬ HoldsObject (some patch)) :
    deepMergeWithin levels base patch = patch := by
  cases levels with
  | zero => cases patch <;> rfl
  | succ levels =>
      unfold deepMergeWithin
      split
      · rename_i _ fields fields' _
        have hbase := holdsObject_obj fields
        have hpatch := holdsObject_obj fields'
        simp [hbase, hpatch] at h
      · rfl

theorem lookup_mergeEntry (levels : Nat) (key : String) (out : List (String × Json))
    (entry : String × Json) :
    lookup key (mergeEntry levels out entry) =
      if entry.1 = key ∧ key ∉ pollutingKeys then
        some (deepMergeWithin levels (lookup key out) entry.2)
      else lookup key out := by
  unfold mergeEntry
  by_cases hname : entry.1 = key
  · by_cases hpolluting : key ∈ pollutingKeys
    · simp [hname, hpolluting]
    · simp [hname, hpolluting, lookup_assign]
  · by_cases hpolluting : entry.1 ∈ pollutingKeys
    · simp [hname, hpolluting]
    · simp [hname, hpolluting, lookup_assign]

/-- A key of the merged object: the patch's value merged into the base's, or the base's. -/
theorem lookup_merged (levels : Nat) (base patch : List (String × Json))
    (hnames : (patch.map Prod.fst).Nodup) (key : String) :
    lookup key (patch.foldl (mergeEntry levels) base) =
      if key ∈ pollutingKeys then lookup key base
      else match lookup key patch with
        | some value => some (deepMergeWithin levels (lookup key base) value)
        | none => lookup key base := by
  induction patch generalizing base with
  | nil => simp [lookup]
  | cons entry rest ih =>
      obtain ⟨name, value⟩ := entry
      simp only [List.map_cons, List.nodup_cons] at hnames
      rw [List.foldl_cons, ih _ hnames.2, lookup_mergeEntry]
      by_cases hpolluting : key ∈ pollutingKeys
      · simp [hpolluting]
      · by_cases hname : name = key
        · subst hname
          have hrest : lookup name rest = none := (lookup_eq_none_iff name rest).mpr hnames.1
          simp [hpolluting, hrest, lookup]
        · simp [hname, lookup]

/-- One level of a merge that goes on. -/
theorem atPath_merged {levels : Nat} {base patch : List (String × Json)}
    (hnames : (patch.map Prod.fst).Nodup) {key : String} (hkey : key ∉ pollutingKeys)
    (path : List String) :
    (deepMergeWithin (levels + 1) (some (.obj base)) (.obj patch)).atPath (key :: path) =
      match lookup key patch with
      | some value => (deepMergeWithin levels (lookup key base) value).atPath path
      | none => (obj base).atPath (key :: path) := by
  rw [deepMergeWithin_obj, atPath_obj, lookup_merged levels base patch hnames, if_neg hkey]
  cases lookup key patch with
  | none => rfl
  | some value => rfl

theorem atPath_unmentioned {levels : Nat} {base patch : List (String × Json)}
    (hnames : (patch.map Prod.fst).Nodup) {key : String} (hkey : lookup key patch = none)
    (path : List String) :
    (deepMergeWithin (levels + 1) (some (.obj base)) (.obj patch)).atPath (key :: path) =
      (obj base).atPath (key :: path) := by
  rw [deepMergeWithin_obj, atPath_obj, lookup_merged levels base patch hnames, hkey]
  simp

theorem not_polluting {fields : List (String × Json)} (hclean : Clean (obj fields)) {key : String}
    {value : Json} (hlookup : lookup key fields = some value) : key ∉ pollutingKeys := by
  intro hmem
  have hnone := hclean [] fields rfl key hmem
  rw [hlookup] at hnone
  cases hnone

theorem levels_pos {levels : Nat} {fields : List (String × Json)}
    (hdepth : NestedWithin levels (obj fields)) : ∃ rest, levels = rest + 1 := by
  have hlt : 0 < levels := hdepth [] fields rfl
  exact ⟨levels - 1, by omega⟩

theorem nestedWithin_child {levels : Nat} {fields : List (String × Json)} {key : String}
    {value : Json} (hdepth : NestedWithin (levels + 1) (obj fields))
    (hlookup : lookup key fields = some value) : NestedWithin levels value := by
  intro path below hpath
  have hlt : (key :: path).length < levels + 1 := hdepth.child hlookup path below hpath
  rw [List.length_cons] at hlt
  omega

/-- What the patch holds stands where it or the base holds no object. -/
theorem patch_stands {levels : Nat} {base : Option Json} {patch : Json}
    (hnames : DistinctNames patch) (hclean : Clean patch) (hdepth : NestedWithin levels patch)
    {path : List String} {value : Json} (hpath : patch.atPath path = some value)
    (hstops : ¬ HoldsObject (base.bind (atPath path)) ∨ ¬ HoldsObject (some value)) :
    (deepMergeWithin levels base patch).atPath path = some value := by
  induction path generalizing levels base patch with
  | nil =>
      rw [atPath_nil, Option.some.injEq] at hpath
      subst hpath
      have hbase : base.bind (atPath []) = base := by cases base <;> rfl
      rw [hbase] at hstops
      rw [deepMergeWithin_stops (Or.inr hstops), atPath_nil]
  | cons key path ih =>
      obtain ⟨fields, child, rfl, hlookup, hchild⟩ := atPath_cons_eq_some hpath
      by_cases hobject : HoldsObject base
      · obtain ⟨below, rfl⟩ := hobject
        obtain ⟨left, rfl⟩ := levels_pos hdepth
        rw [atPath_merged (hnames [] fields rfl) (not_polluting hclean hlookup), hlookup]
        exact ih (hnames.child hlookup) (hclean.child hlookup)
          (nestedWithin_child hdepth hlookup) hchild hstops
      · rw [deepMergeWithin_stops (Or.inr (Or.inl hobject)), atPath_obj, hlookup]
        exact hchild

/-- What the patch does not mention below an object of both is the base's. -/
theorem base_stands {levels : Nat} {base patch : Json} (hnames : DistinctNames patch)
    (hclean : Clean patch) (hdepth : NestedWithin levels patch) {path : List String}
    (hbase : HoldsObject (base.atPath path)) (hpatch : HoldsObject (patch.atPath path))
    {key : String} (hkey : patch.atPath (path ++ [key]) = none) (rest : List String) :
    (deepMergeWithin levels (some base) patch).atPath (path ++ key :: rest) =
      base.atPath (path ++ key :: rest) := by
  induction path generalizing levels base patch with
  | nil =>
      simp only [atPath_nil] at hbase hpatch
      obtain ⟨below, hbelow⟩ := hbase
      obtain ⟨fields, hfields⟩ := hpatch
      cases hbelow
      cases hfields
      obtain ⟨left, rfl⟩ := levels_pos hdepth
      have hnone : lookup key fields = none := by
        cases hlookup : lookup key fields with
        | none => rfl
        | some value => simp [hlookup] at hkey
      exact atPath_unmentioned (hnames [] fields rfl) hnone rest
  | cons first path ih =>
      obtain ⟨fields, hfields⟩ := hpatch
      obtain ⟨below, hbelow⟩ := hbase
      obtain ⟨patchFields, child, rfl, hlookup, hchild⟩ := atPath_cons_eq_some hfields
      obtain ⟨baseFields, child', rfl, hlookup', hchild'⟩ := atPath_cons_eq_some hbelow
      obtain ⟨left, rfl⟩ := levels_pos hdepth
      rw [List.cons_append, atPath_obj, hlookup] at hkey
      rw [List.cons_append, atPath_merged (hnames [] patchFields rfl)
        (not_polluting hclean hlookup), hlookup, hlookup', atPath_obj, hlookup']
      exact ih (hnames.child hlookup) (hclean.child hlookup)
        (nestedWithin_child hdepth hlookup) ⟨below, hchild'⟩ ⟨fields, hchild⟩ hkey

/-- The longest part of a path that a value has. -/
structure LongestPresent (value : Json) (path part : List String) : Prop where
  starts : part <+: path
  present : (value.atPath part).isSome
  longest : ∀ other, other <+: path → (value.atPath other).isSome → other.length ≤ part.length

theorem LongestPresent.next {value : Json} {path part : List String}
    (h : LongestPresent value path part) (habsent : value.atPath path = none) :
    ∃ key rest, path = part ++ key :: rest ∧ value.atPath (part ++ [key]) = none := by
  obtain ⟨rest, rfl⟩ := h.starts
  cases rest with
  | nil =>
      have hpresent := h.present
      rw [List.append_nil] at habsent
      rw [habsent] at hpresent
      cases hpresent
  | cons key rest =>
      refine ⟨key, rest, rfl, ?_⟩
      cases hnext : value.atPath (part ++ [key]) with
      | none => rfl
      | some found =>
          have hstart : part ++ [key] <+: part ++ key :: rest := ⟨rest, by simp⟩
          have hlen := h.longest (part ++ [key]) hstart (by simp [hnext])
          rw [List.length_append, List.length_singleton] at hlen
          omega

/-- A merge along a key path: what the patch does not mention is kept, a value of it that is
no object replaces, and an object of it replaces what is none. -/
theorem merge_at_path {base patch : Json} (hnames : DistinctNames patch) (hclean : Clean patch)
    (hdepth : NestedWithin maxDepth patch) (path : List String) :
    (∀ part, LongestPresent patch path part → HoldsObject (base.atPath part) →
      HoldsObject (patch.atPath part) → patch.atPath path = none →
      (deepMerge base patch).atPath path = base.atPath path) ∧
    (∀ value, patch.atPath path = some value → ¬ HoldsObject (some value) →
      (deepMerge base patch).atPath path = some value) ∧
    (∀ fields, patch.atPath path = some (obj fields) → ¬ HoldsObject (base.atPath path) →
      (deepMerge base patch).atPath path = some (obj fields)) := by
  refine ⟨?_, ?_, ?_⟩
  · intro part hpart hbase hpatch habsent
    obtain ⟨key, rest, rfl, hkey⟩ := hpart.next habsent
    exact base_stands hnames hclean hdepth hbase hpatch hkey rest
  · intro value hpath hvalue
    exact patch_stands hnames hclean hdepth hpath (Or.inr hvalue)
  · intro fields hpath hbase
    exact patch_stands hnames hclean hdepth hpath (Or.inl hbase)

/-- An object with one key. -/
theorem everywhere_singleton {ok : List String → List (String × Json) → Prop} {name : String}
    {value : Json} (hhere : ok [] [(name, value)])
    (hchild : Everywhere (fun path => ok (name :: path)) value) :
    Everywhere ok (obj [(name, value)]) := by
  rw [everywhere_obj_iff]
  refine ⟨hhere, ?_⟩
  intro key found hlookup
  by_cases hname : name = key
  · subst hname
    simp only [lookup, if_true, Option.some.injEq] at hlookup
    exact hlookup ▸ hchild
  · simp [lookup, hname] at hlookup

/-- A stored document and a patch that clears one key of it. -/
def sampleDocument : Json :=
  obj [("meta", obj [("keep", num 1), ("title", str "t")])]

def samplePatch : Json := obj [("meta", obj [("title", null)])]

theorem null_everywhere (ok : List String → List (String × Json) → Prop) :
    Everywhere ok null := by
  apply everywhere_of_not_obj
  rintro ⟨fields, h⟩
  cases h

theorem samplePatch_everywhere {ok : List String → List (String × Json) → Prop}
    (houter : ok [] [("meta", obj [("title", null)])]) (hinner : ok ["meta"] [("title", null)]) :
    Everywhere ok samplePatch :=
  everywhere_singleton houter (everywhere_singleton hinner (null_everywhere _))

theorem merge_keeps_sibling :
    (deepMerge sampleDocument samplePatch).atPath ["meta", "keep"] =
      sampleDocument.atPath ["meta", "keep"] := by
  have hlongest : LongestPresent samplePatch ["meta", "keep"] ["meta"] := by
    refine ⟨⟨["keep"], rfl⟩, rfl, ?_⟩
    intro other hstart hpresent
    obtain ⟨rest, hrest⟩ := hstart
    by_contra hlong
    rw [List.length_singleton] at hlong
    have hlen := congrArg List.length hrest
    rw [List.length_append] at hlen
    have hall : rest = [] := by
      apply List.eq_nil_of_length_eq_zero
      simp only [List.length_cons, List.length_nil] at hlen
      omega
    subst hall
    rw [List.append_nil] at hrest
    subst hrest
    simp [samplePatch, lookup] at hpresent
  exact (merge_at_path (samplePatch_everywhere (by simp) (by simp))
    (samplePatch_everywhere (by simp [pollutingKeys, lookup]) (by simp [pollutingKeys, lookup]))
    (samplePatch_everywhere (by simp [maxDepth]) (by simp [maxDepth])) ["meta", "keep"]).1
    ["meta"] hlongest ⟨_, rfl⟩ ⟨_, rfl⟩ rfl

theorem clean_of_atPath {value found : Json} (hclean : Clean value) {path : List String}
    (hpath : value.atPath path = some found) : Clean found := by
  induction path generalizing value with
  | nil =>
      rw [atPath_nil, Option.some.injEq] at hpath
      exact hpath ▸ hclean
  | cons key path ih =>
      obtain ⟨fields, child, rfl, hlookup, hchild⟩ := atPath_cons_eq_some hpath
      exact ih (hclean.child hlookup) hchild

/-- Where the merge stops, below no polluting key, it puts a clean value of the patch. -/
def StopsClean (levels : Nat) (base : Option Json) (patch : Json) : Prop :=
  ∀ path value, (∀ key ∈ path, key ∉ pollutingKeys) → patch.atPath path = some value →
    ¬ HoldsObject (base.bind (atPath path)) ∨ levels ≤ path.length → Clean value

theorem clean_stopped_iff {levels : Nat} {base : Option Json} {patch : Json}
    (h : levels = 0 ∨ ¬ HoldsObject base ∨ ¬ HoldsObject (some patch)) :
    Clean patch ↔ StopsClean levels base patch := by
  constructor
  · intro hclean path value _ hpath _
    exact clean_of_atPath hclean hpath
  · intro hstops
    have hbase : base.bind (atPath []) = base := by cases base <;> rfl
    rcases h with hzero | hnone | hvalue
    · exact hstops [] patch (by simp) (atPath_nil patch) (Or.inr (by simp [hzero]))
    · exact hstops [] patch (by simp) (atPath_nil patch) (Or.inl (by rwa [hbase]))
    · exact everywhere_of_not_obj hvalue

/-- A merge that goes on stops cleanly when the merges of the keys below do. -/
theorem stopsClean_obj_iff {levels : Nat} {base patch : List (String × Json)} :
    StopsClean (levels + 1) (some (obj base)) (obj patch) ↔
      ∀ key value, key ∉ pollutingKeys → lookup key patch = some value →
        StopsClean levels (lookup key base) value := by
  constructor
  · intro hstops key value hkey hlookup path found hkeys hpath hend
    refine hstops (key :: path) found ?_ ?_ ?_
    · exact List.forall_mem_cons.mpr ⟨hkey, hkeys⟩
    · rw [atPath_obj, hlookup]
      exact hpath
    · rw [List.length_cons, Nat.add_le_add_iff_right]
      exact hend
  · intro hbelow path found hkeys hpath hend
    cases path with
    | nil =>
        rcases hend with hnone | hlong
        · exact absurd (holdsObject_obj base) hnone
        · cases hlong
    | cons key path =>
        rw [atPath_obj, Option.bind_eq_some_iff] at hpath
        obtain ⟨child, hlookup, hchild⟩ := hpath
        rw [List.forall_mem_cons] at hkeys
        rw [List.length_cons, Nat.add_le_add_iff_right] at hend
        exact hbelow key child hkeys.1 hlookup path found hkeys.2 hchild hend

theorem clean_merged_iff {levels : Nat} {base : Option Json} {patch : Json}
    (hbase : ∀ value ∈ base, Clean value) (hnames : DistinctNames patch) :
    Clean (deepMergeWithin levels base patch) ↔ StopsClean levels base patch := by
  induction levels generalizing base patch with
  | zero =>
      rw [deepMergeWithin_stops (Or.inl rfl)]
      exact clean_stopped_iff (Or.inl rfl)
  | succ levels ih =>
      by_cases hobjects : HoldsObject base ∧ HoldsObject (some patch)
      · obtain ⟨⟨below, rfl⟩, fields, hfields⟩ := hobjects
        cases hfields
        have hcleanBelow : Clean (obj below) := hbase _ rfl
        have hchild (key : String) (hkey : key ∉ pollutingKeys) (value : Json)
            (hlookup : lookup key fields = some value) :
            Clean (deepMergeWithin levels (lookup key below) value) ↔
              StopsClean levels (lookup key below) value :=
          ih (fun old hold => hcleanBelow.child hold) (hnames.child hlookup)
        have hmerged := lookup_merged levels below fields (hnames [] fields rfl)
        rw [deepMergeWithin_obj, stopsClean_obj_iff, Clean, everywhere_obj_iff]
        constructor
        · rintro ⟨-, hclean⟩ key value hkey hlookup
          apply (hchild key hkey value hlookup).mp
          apply hclean key
          rw [hmerged, if_neg hkey, hlookup]
        · intro hstops
          refine ⟨?_, ?_⟩
          · intro key hkey
            rw [hmerged, if_pos hkey]
            exact hcleanBelow [] below rfl key hkey
          · intro key value hlookup
            rw [hmerged] at hlookup
            by_cases hkey : key ∈ pollutingKeys
            · rw [if_pos hkey] at hlookup
              exact hcleanBelow.child hlookup
            · rw [if_neg hkey] at hlookup
              cases hpatch : lookup key fields with
              | none =>
                  rw [hpatch] at hlookup
                  exact hcleanBelow.child hlookup
              | some child =>
                  rw [hpatch] at hlookup
                  cases hlookup
                  exact (hchild key hkey child hpatch).mpr (hstops key child hkey hpatch)
      · have hends : ¬ HoldsObject base ∨ ¬ HoldsObject (some patch) :=
          not_and_or.mp hobjects
        rw [deepMergeWithin_stops (Or.inr hends)]
        exact clean_stopped_iff (Or.inr hends)

/-- A polluting key of the patch gets through exactly in a subtree that the merge does not
go into. -/
theorem deepMerge_clean_iff {base patch : Json} (hbase : Clean base)
    (hnames : DistinctNames patch) :
    Clean (deepMerge base patch) ↔ StopsClean maxDepth (some base) patch := by
  apply clean_merged_iff _ hnames
  intro value hvalue
  cases hvalue
  exact hbase

theorem sampleDocument_clean : Clean sampleDocument := by
  apply everywhere_singleton
  · simp [pollutingKeys, lookup]
  · rw [everywhere_obj_iff]
    refine ⟨by simp [pollutingKeys, lookup], ?_⟩
    intro key value hlookup
    apply everywhere_of_not_obj
    rintro ⟨fields, hfields⟩
    cases hfields
    simp only [lookup] at hlookup
    split_ifs at hlookup <;> cases hlookup

theorem samplePatch_merged_cleanly :
    Clean (deepMerge sampleDocument samplePatch) ↔
      StopsClean maxDepth (some sampleDocument) samplePatch :=
  deepMerge_clean_iff sampleDocument_clean (samplePatch_everywhere (by simp) (by simp))

/-- A hostile key under a key the base does not have. -/
def hostilePatch : Json := obj [("meta", obj [("__proto__", null)])]

theorem hostile_key_gets_through :
    ¬ ∀ patch, DistinctNames patch → Clean (deepMerge (obj []) patch) := by
  intro hall
  have hnames : DistinctNames hostilePatch :=
    everywhere_singleton (by simp) (everywhere_singleton (by simp) (null_everywhere _))
  have hclean := hall hostilePatch hnames ["meta"] [("__proto__", null)] rfl "__proto__"
    (by simp [pollutingKeys])
  cases hclean

end ZedSync
