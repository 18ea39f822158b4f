import NamedSets.Proofs.Catalog

/-!
# Unambiguous catalogs

A type of the unspecified family and one of a single family overlap: either may be registered
first, and a look-up answers the one that is. In every catalog that is built up from an empty one
no type stands behind another one that answers in its place. So every type is found under its own
key, and what is found once is found until it is unregistered.
-/

namespace NamedSets

variable {σ : Type}

namespace SetType

def key (type : SetType σ) : String × Family × UInt8 := (type.name, type.family, type.revision)

/-- Whether look-ups for the later type are answered by the earlier one. -/
def Shadows (earlier later : SetType σ) : Prop :=
  earlier.serves later.name later.family ∧ earlier.revision = later.revision

theorem Shadows.of_key {earlier later : SetType σ} (same : earlier.key = later.key) :
    earlier.Shadows later := by
  obtain ⟨name, family, revision⟩ : earlier.name = later.name ∧ earlier.family = later.family ∧
      earlier.revision = later.revision := by simpa [key] using same
  exact ⟨by simp [serves, name, family], revision⟩

end SetType

namespace Catalog

variable {catalog later : Catalog σ} {type : SetType σ} {name : String} {family : Family}
  {revision least greatest : UInt8}

inductive Action (σ : Type) where
  | register (type : SetType σ)
  | unregister (name : String) (family : Family) (revision : UInt8)
  | find (name : String) (family : Family) (revision : UInt8)
  | findRevisions (name : String) (family : Family)

def after (catalog : Catalog σ) : Action σ → Catalog σ
  | .register type => (catalog.register type).toOption.getD catalog
  | .unregister name family revision =>
      ((catalog.unregister name family revision).map Prod.fst).toOption.getD catalog
  | .find name family revision => (catalog.lookupOrLoad name family revision).1
  | .findRevisions name family => (catalog.revisionRangeOrLoad name family).1

/-! ## How catalogs grow -/

/-- The later catalog has the same types, or one more, which was not found before. -/
inductive Grows (catalog later : Catalog σ) : Prop
  | same (types : later.types = catalog.types)
  | more (type : SetType σ)
      (free : catalog.lookup type.name type.family type.revision = none)
      (types : later.types = catalog.types ++ [type])

theorem grows_register (accepted : catalog.register type = .ok later) : catalog.Grows later := by
  unfold register at accepted
  split at accepted
  · contradiction
  · split at accepted
    · contradiction
    · rename_i free
      cases accepted
      exact .more type (by simpa using free) rfl

theorem grows_loadBuiltin (catalog : Catalog σ) (name : String) :
    catalog.Grows (catalog.loadBuiltin name) := by
  unfold loadBuiltin
  split
  · exact .same rfl
  · split
    · rename_i accepted
      exact grows_register accepted
    · exact .same rfl

theorem grows_load (catalog : Catalog σ) (name : String) : catalog.Grows (catalog.load name) := by
  unfold load
  split
  · -- The names that are asked for do not count.
    have grows := grows_loadBuiltin { catalog with loader := catalog.loader.ask name } name
    cases grows with
    | same types => exact .same types
    | more type free types => exact .more type free types
  · exact .same rfl

theorem grows_lookupOrLoad (catalog : Catalog σ) (name : String) (family : Family)
    (revision : UInt8) : catalog.Grows (catalog.lookupOrLoad name family revision).1 := by
  unfold lookupOrLoad
  split
  · exact .same rfl
  · exact catalog.grows_load name

theorem grows_revisionRangeOrLoad (catalog : Catalog σ) (name : String) (family : Family) :
    catalog.Grows (catalog.revisionRangeOrLoad name family).1 := by
  unfold revisionRangeOrLoad
  split
  · exact .same rfl
  · exact catalog.grows_load name

/-- A new type stands behind all others, so what was found before it is still found. -/
theorem Grows.lookup (grows : catalog.Grows later)
    (found : catalog.lookup name family revision = some type) :
    later.lookup name family revision = some type := by
  unfold Catalog.lookup at found ⊢
  cases grows with
  | same types => rw [types, found]
  | more _ _ types => rw [types, List.find?_append, found, Option.some_or]

/-! ## Types behind others -/

theorem lookup_eq_none_iff :
    catalog.lookup name family revision = none ↔
      ∀ type ∈ catalog.types, type.serves name family → type.revision ≠ revision := by
  simp [lookup, List.find?_eq_none]

def Unshadowed (catalog : Catalog σ) : Prop :=
  catalog.types.Pairwise fun earlier later => ¬ earlier.Shadows later

theorem Grows.unshadowed (grows : catalog.Grows later) (unshadowed : catalog.Unshadowed) :
    later.Unshadowed := by
  unfold Unshadowed at unshadowed ⊢
  cases grows with
  | same types => rwa [types]
  | more type free types =>
      rw [types]
      refine List.pairwise_append.mpr ⟨unshadowed, List.pairwise_singleton _ _, ?_⟩
      intro earlier before last isNew shadows
      obtain rfl := List.mem_singleton.mp isNew
      exact lookup_eq_none_iff.mp free earlier before shadows.1 shadows.2

theorem after_unregister (catalog : Catalog σ) (name : String) (family : Family)
    (revision : UInt8) :
    (catalog.after (.unregister name family revision)).types =
      catalog.types.eraseP (hasKey name family revision) := by
  unfold after unregister
  cases found : catalog.types.find? (hasKey name family revision) with
  | some type => simp [found, Except.map, Except.toOption]
  | none =>
      have absent := List.find?_eq_none.mp found
      simp [found, Except.map, Except.toOption, List.eraseP_of_forall_not absent]

theorem Unshadowed.after (unshadowed : catalog.Unshadowed) (action : Action σ) :
    (catalog.after action).Unshadowed := by
  cases action with
  | register type =>
      change Unshadowed ((catalog.register type).toOption.getD catalog)
      cases accepted : catalog.register type with
      | error fault => exact unshadowed
      | ok registered => exact (grows_register accepted).unshadowed unshadowed
  | unregister name family revision =>
      unfold Unshadowed
      rw [after_unregister]
      exact List.Pairwise.sublist List.eraseP_sublist unshadowed
  | find name family revision =>
      exact (catalog.grows_lookupOrLoad name family revision).unshadowed unshadowed
  | findRevisions name family =>
      exact (catalog.grows_revisionRangeOrLoad name family).unshadowed unshadowed

theorem unshadowed_run (loader : Loader) (actions : List (Action σ)) :
    (actions.foldl after { types := [], loader }).Unshadowed := by
  suffices ∀ catalog : Catalog σ, catalog.Unshadowed →
      (actions.foldl Catalog.after catalog).Unshadowed from this _ .nil
  induction actions with
  | nil => exact fun _ unshadowed => unshadowed
  | cons action actions ih => exact fun _ unshadowed => ih _ (unshadowed.after action)

theorem Unshadowed.lookup_itself (unshadowed : catalog.Unshadowed) (present : type ∈ catalog.types) :
    catalog.lookup type.name type.family type.revision = some type := by
  obtain ⟨before, rest, split⟩ := List.append_of_mem present
  unfold Unshadowed at unshadowed
  rw [split, List.pairwise_append] at unshadowed
  unfold lookup
  rw [split, List.find?_append, List.find?_eq_none.mpr, Option.none_or]
  · exact List.find?_cons_of_pos (by simp [SetType.serves])
  · intro earlier among answers
    have shadows : earlier.Shadows type := by simpa [SetType.Shadows] using answers
    exact unshadowed.2.2 earlier among type List.mem_cons_self shadows

theorem Unshadowed.nodup_keys (unshadowed : catalog.Unshadowed) :
    (catalog.types.map SetType.key).Nodup :=
  List.pairwise_map.mpr (unshadowed.imp fun apart same => apart (.of_key same))

/-! ## Removal -/

theorem hasKey_iff : hasKey name family revision type ↔ type.key = (name, family, revision) := by
  simp [hasKey, SetType.key, and_assoc]

/-- Where keys are distinct, to remove the first type of a key is to remove the only one. -/
theorem eraseP_hasKey {types : List (SetType σ)} (distinct : (types.map SetType.key).Nodup) :
    types.eraseP (hasKey name family revision) =
      types.filter fun type => type.key ≠ (name, family, revision) := by
  induction types with
  | nil => rfl
  | cons first rest ih =>
      obtain ⟨fresh, distinct⟩ := List.nodup_cons.mp distinct
      by_cases here : first.key = (name, family, revision)
      · have others (other : SetType σ) (among : other ∈ rest) :
            other.key ≠ (name, family, revision) := by
          intro same
          exact fresh (List.mem_map.mpr ⟨other, among, same.trans here.symm⟩)
        rw [List.eraseP_cons_of_pos (hasKey_iff.mpr here), List.filter_cons_of_neg (by simp [here]),
          List.filter_eq_self.mpr fun other among => by simpa using others other among]
      · rw [List.eraseP_cons_of_neg (mt hasKey_iff.mp here), ih distinct,
          List.filter_cons_of_pos (by simpa using here)]

/-- To unregister a key is to remove the type of that key, if there is one. -/
theorem Unshadowed.unregister_cases (unshadowed : catalog.Unshadowed) (name : String)
    (family : Family) (revision : UInt8) :
    (∃ type ∈ catalog.types, type.key = (name, family, revision) ∧
      catalog.unregister name family revision =
        .ok ({ catalog with
          types := catalog.types.filter fun type => type.key ≠ (name, family, revision) }, type)) ∨
    (∀ type ∈ catalog.types, type.key ≠ (name, family, revision)) ∧
      catalog.unregister name family revision = .error .typeNotRegistered := by
  cases found : catalog.types.find? (hasKey name family revision) with
  | some type =>
      refine .inl ⟨type, List.mem_of_find?_eq_some found, hasKey_iff.mp (List.find?_some found), ?_⟩
      simp only [unregister, found, eraseP_hasKey unshadowed.nodup_keys]
  | none =>
      refine .inr ⟨fun type present => ?_, by simp only [unregister, found]⟩
      exact mt hasKey_iff.mpr (List.find?_eq_none.mp found type present)

/-! ## Ranges of revisions -/

theorem mem_revisions :
    revision ∈ catalog.revisions name family ↔
      (catalog.lookup name family revision).isSome := by
  simp [revisions, lookup, and_comm, and_left_comm]

theorem revisionRange_isSome :
    (catalog.revisionRange name family).isSome ↔
      ∃ type ∈ catalog.types, type.serves name family := by
  have empty : catalog.revisionRange name family = none ↔ catalog.revisions name family = [] := by
    unfold revisionRange
    split <;> simp_all
  rw [← Option.ne_none_iff_isSome, Ne, empty]
  simp [revisions]

instance : Std.LawfulOrderMax UInt8 where
  max_eq_or left right := by
    change (if left ≤ right then right else left) = left ∨
      (if left ≤ right then right else left) = right
    split
    · exact .inr rfl
    · exact .inl rfl
  max_le_iff left right bound := by
    change (if left ≤ right then right else left) ≤ bound ↔ _
    split
    all_goals
      rename_i order
      simp only [UInt8.le_iff_toNat_le] at order ⊢
      omega

theorem revisionRange_bounds (found : catalog.revisionRange name family = some (least, greatest)) :
    (catalog.revisions name family).min? = some least ∧
      (catalog.revisions name family).max? = some greatest := by
  unfold revisionRange at found
  split at found
  · contradiction
  · rename_i first rest listed
    obtain ⟨rfl, rfl⟩ := Prod.mk.inj (Option.some.inj found)
    rw [listed]
    exact ⟨List.min?_cons', List.max?_cons'⟩

/-- The ends of a range are revisions that are found, and none is found outside it. -/
theorem lookup_of_revisionRange
    (found : catalog.revisionRange name family = some (least, greatest)) :
    (catalog.lookup name family least).isSome ∧ (catalog.lookup name family greatest).isSome ∧
      ∀ revision, revision < least ∨ greatest < revision →
        catalog.lookup name family revision = none := by
  obtain ⟨lowest, highest⟩ := revisionRange_bounds found
  obtain ⟨lowestThere, noLower⟩ := List.min?_eq_some_iff.mp lowest
  obtain ⟨highestThere, noHigher⟩ := List.max?_eq_some_iff.mp highest
  refine ⟨mem_revisions.mp lowestThere, mem_revisions.mp highestThere, fun revision outside => ?_⟩
  by_contra answered
  have listed := mem_revisions.mpr (Option.ne_none_iff_isSome.mp answered)
  have above := UInt8.le_iff_toNat_le.mp (noLower revision listed)
  have below := UInt8.le_iff_toNat_le.mp (noHigher revision listed)
  rw [UInt8.lt_iff_toNat_lt, UInt8.lt_iff_toNat_lt] at outside
  omega

/-! ## Every catalog in use -/

structure Dependable (catalog : Catalog σ) : Prop where
  distinct : (catalog.types.map SetType.key).Nodup
  itself : ∀ type ∈ catalog.types,
    catalog.lookup type.name type.family type.revision = some type
  /-- What is found stays found when types are registered, be it on a user's account or because
  they are asked for. -/
  lasting : ∀ name family revision found, catalog.lookup name family revision = some found →
    (∀ type registered, catalog.register type = .ok registered →
      registered.lookup name family revision = some found) ∧
    (∀ asked served wanted,
      (catalog.lookupOrLoad asked served wanted).1.lookup name family revision = some found) ∧
    ∀ asked served,
      (catalog.revisionRangeOrLoad asked served).1.lookup name family revision = some found
  removal : ∀ name family revision,
    (∃ type ∈ catalog.types, type.key = (name, family, revision) ∧
      catalog.unregister name family revision =
        .ok ({ catalog with
          types := catalog.types.filter fun type => type.key ≠ (name, family, revision) }, type)) ∨
    (∀ type ∈ catalog.types, type.key ≠ (name, family, revision)) ∧
      (∃ fault, catalog.unregister name family revision = .error fault ∧
        fault.errno = .noEntry) ∧
      catalog.after (.unregister name family revision) = catalog
  ranges : ∀ name family,
    ((catalog.revisionRange name family).isSome ↔
      ∃ type ∈ catalog.types, type.serves name family) ∧
    ∀ least greatest, catalog.revisionRange name family = some (least, greatest) →
      (catalog.lookup name family least).isSome ∧ (catalog.lookup name family greatest).isSome ∧
      ∀ revision, revision < least ∨ greatest < revision →
        catalog.lookup name family revision = none

/-- Whatever is done with an empty catalog, it stays dependable. -/
theorem dependable_run (loader : Loader) (actions : List (Action σ)) :
    (actions.foldl after { types := [], loader }).Dependable := by
  have unshadowed := unshadowed_run loader actions
  generalize actions.foldl after { types := [], loader } = catalog at unshadowed
  refine ⟨unshadowed.nodup_keys, fun type => unshadowed.lookup_itself, ?_, ?_, ?_⟩
  · intro name family revision type found
    exact ⟨fun _ _ accepted => (grows_register accepted).lookup found,
      fun _ _ _ => (catalog.grows_lookupOrLoad _ _ _).lookup found,
      fun _ _ => (catalog.grows_revisionRangeOrLoad _ _).lookup found⟩
  · intro name family revision
    refine (unshadowed.unregister_cases name family revision).imp_right fun ⟨absent, refused⟩ => ?_
    exact ⟨absent, ⟨_, refused, rfl⟩, by simp only [after, refused]; rfl⟩
  · exact fun name family => ⟨revisionRange_isSome, fun _ _ => lookup_of_revisionRange⟩

/-- A type of all families that comes behind one of a single family answers for the others. -/
example :
    let type (family : Family) : SetType Empty := { SetType.addressHash with family }
    let catalog := [.register (type .ipv4), .register (type .unspecified)].foldl after
      { types := [], loader := .absent }
    [Family.ipv4, .ipv6, .unspecified].map (fun family =>
      (catalog.lookup "hash:ip" family 0).map (·.family)) =
        [some .ipv4, some .unspecified, some .unspecified] := by
  decide +kernel

end Catalog

end NamedSets
