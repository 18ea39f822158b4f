import Mathlib.Data.Set.Finite.Basic
import Mathlib.Order.Bounds.Basic
import NamedSets.Errno
import NamedSets.Proofs.Table.Names

/-!
# The table as a map

Looked up by name, a table of distinct names is a finite map from names to slots and the
sets in them. Every operation on whole sets acts on that map alone: it is an update of the
map, or it fails and leaves the table as it is.
-/

namespace NamedSets.Table

open Function (update)

variable {σ : Type} {table after : Table σ} {id secondId : Nat} {entry other : Entry σ}
  {name second : String}

/-- Names are distinct, so the map is known from the slots. -/
theorem lookup_eq {map : String → Option (Nat × Entry σ)} (distinct : table.NamesDistinct)
    (same : ∀ name id entry, map name = some (id, entry) ↔
      table.get? id = some entry ∧ entry.name.text = name) : table.lookup? = map := by
  funext name
  apply Option.ext
  rintro ⟨id, entry⟩
  rw [distinct.lookup_iff, same]

/-! ## The map without a slot -/

def without (table : Table σ) (id : Nat) (name : String) : Option (Nat × Entry σ) :=
  (table.lookup? name).filter fun found => found.1 ≠ id

theorem without_eq_some_iff (distinct : table.NamesDistinct) {slot : Nat} :
    table.without id name = some (slot, entry) ↔
      table.get? slot = some entry ∧ entry.name.text = name ∧ slot ≠ id := by
  rw [without, Option.filter_eq_some_iff, distinct.lookup_iff, decide_eq_true_eq, and_assoc]

theorem without_vacant (distinct : table.NamesDistinct) (vacant : table.get? id = none) :
    table.without id = table.lookup? := by
  refine (lookup_eq distinct fun name slot entry => ?_).symm
  rw [without_eq_some_iff distinct]
  refine ⟨fun found => ⟨found.1, found.2.1⟩, fun found => ⟨found.1, found.2, ?_⟩⟩
  rintro rfl
  rw [vacant] at found
  exact nomatch found.1

/-- Only the name of the set in a slot leads to the slot. -/
theorem without_of_lookup (found : table.lookup? name = some (id, entry)) :
    table.without id = update table.lookup? name none := by
  funext asked
  by_cases same : asked = name
  · subst same
    rw [Function.update_self, without, found]
    simp
  · rw [Function.update_of_ne same, without]
    cases looked : table.lookup? asked with
    | none => rfl
    | some present =>
        obtain ⟨slot, set⟩ := present
        obtain ⟨-, there, named⟩ := get_of_lookup looked
        obtain ⟨-, here, ownName⟩ := get_of_lookup found
        have different : slot ≠ id := by
          rintro rfl
          cases there.symm.trans here
          exact same (named.symm.trans ownName)
        simp [different]

theorem lookup_set_none (distinct : table.NamesDistinct) (inside : id < table.capacity) :
    (table.set id none).lookup? = table.without id := by
  apply lookup_eq (distinct.remove inside)
  intro name slot entry
  rw [get_set_inside inside, without_eq_some_iff distinct]
  by_cases same : id = slot
  · simp [same]
  · simp [same, Ne.symm same]

/-- Whatever stood in a slot, afterwards the name of its set leads to it, and no other. -/
theorem lookup_set (distinct : table.NamesDistinct)
    (distinctAfter : (table.set id (some entry)).NamesDistinct) (inside : id < table.capacity) :
    (table.set id (some entry)).lookup? =
      update (table.without id) entry.name.text (some (id, entry)) := by
  have there : (table.set id (some entry)).get? id = some entry := by
    rw [get_set_inside inside, if_pos rfl]
  apply lookup_eq distinctAfter
  intro name slot set
  by_cases named : name = entry.name.text
  · subst named
    rw [Function.update_self, Option.some.injEq, Prod.mk.injEq]
    constructor
    · rintro ⟨rfl, rfl⟩
      exact ⟨there, rfl⟩
    · rintro ⟨here, same⟩
      have place := distinctAfter id slot entry set there here same.symm
      subst place
      cases there.symm.trans here
      exact ⟨rfl, rfl⟩
  · rw [Function.update_of_ne named, without_eq_some_iff distinct, get_set_inside inside]
    by_cases same : id = slot
    · subst same
      simp only [ne_eq, not_true_eq_false, and_false, if_true, Option.some.injEq, false_iff]
      rintro ⟨rfl, own⟩
      exact named own.symm
    · simp [same, Ne.symm same]

/-- Other contents under the same name replace what the name stands for. -/
theorem lookup_set_same (distinct : table.NamesDistinct)
    (found : table.lookup? name = some (id, other)) (named : entry.name = other.name) :
    (table.set id (some entry)).lookup? = update table.lookup? name (some (id, entry)) := by
  obtain ⟨-, occupied, own⟩ := get_of_lookup found
  rw [lookup_set distinct (distinct.set_same occupied named) (lt_capacity_of_get occupied),
    without_of_lookup found, named, own, Function.update_idem]

/-! ## What operations do to the map -/

/-- The least free slot, as a search from the first one finds it. -/
theorem free_of_isLeast
    (least : IsLeast {slot | slot < table.capacity ∧ table.get? slot = none} id) :
    table.free? = some id := by
  obtain ⟨⟨inside, vacant⟩, first⟩ := least
  cases found : table.free? with
  | none =>
      obtain ⟨entry, occupied⟩ := occupied_of_free_eq_none found inside
      rw [vacant] at occupied
      contradiction
  | some slot =>
      obtain ⟨empty, present, earlier⟩ := get_eq_none_of_free found
      have below : id ≤ slot := first ⟨present, empty⟩
      rcases Nat.lt_or_eq_of_le below with before | same
      · obtain ⟨entry, occupied⟩ := earlier id before
        rw [vacant] at occupied
        contradiction
      · rw [same]

theorem free_eq_none_of_full
    (full : ∀ slot < table.capacity, ∃ entry, table.get? slot = some entry) :
    table.free? = none := by
  cases found : table.free? with
  | none => rfl
  | some slot =>
      obtain ⟨empty, present, -⟩ := get_eq_none_of_free found
      obtain ⟨entry, occupied⟩ := full slot present
      rw [empty] at occupied
      contradiction

/-- Giving back references changes counts only. -/
theorem lookup_releaseAll (distinct : table.NamesDistinct) (ids : List Nat) :
    (table.releaseAll ids).lookup? = fun name =>
      (table.lookup? name).map fun (slot, set) => (slot, Entry.release^[ids.count slot] set) := by
  have released (times : Nat) (set : Entry σ) : (Entry.release^[times] set).name = set.name := by
    induction times generalizing set with
    | zero => rfl
    | succ times ih =>
        rw [Function.iterate_succ_apply, ih]
        exact congrArg Prod.fst set.label_release
  apply lookup_eq (distinct.of_sameLabels (.releaseAll table ids))
  intro name slot set
  rw [get_releaseAll, Option.map_eq_some_iff, Option.map_eq_some_iff]
  constructor
  · rintro ⟨⟨place, before⟩, looked, same⟩
    obtain ⟨-, here, named⟩ := get_of_lookup looked
    cases same
    exact ⟨⟨before, here, rfl⟩, by rw [released, named]⟩
  · rintro ⟨⟨before, here, rfl⟩, named⟩
    rw [released] at named
    exact ⟨(slot, before), distinct.lookup_iff.mpr ⟨here, named⟩, rfl⟩

theorem lookup_exchanged (distinct : table.NamesDistinct)
    (found : table.lookup? name = some (id, entry))
    (secondFound : table.lookup? second = some (secondId, other)) (different : id ≠ secondId) :
    (table.exchanged id secondId entry other).lookup? =
      update (update table.lookup? name (some (id, entry.withContents other))) second
        (some (secondId, other.withContents entry)) := by
  have changed : (table.set id (some (entry.withContents other))).NamesDistinct :=
    distinct.set_same (get_of_lookup found).2.1 rfl
  have firstMap : (table.set id (some (entry.withContents other))).lookup? =
      update table.lookup? name (some (id, entry.withContents other)) :=
    lookup_set_same distinct found rfl
  have apart : second ≠ name := by
    rintro rfl
    rw [found] at secondFound
    cases secondFound
    exact different rfl
  have stays : (table.set id (some (entry.withContents other))).lookup? second =
      some (secondId, other) := by
    rw [firstMap, Function.update_of_ne apart, secondFound]
  have secondMap : (table.exchanged id secondId entry other).lookup? =
      update (table.set id (some (entry.withContents other))).lookup? second
        (some (secondId, other.withContents entry)) :=
    lookup_set_same changed stays rfl
  rw [secondMap, firstMap]

/-- Exchanging the contents of two slots twice restores them. -/
theorem exchanged_exchanged (found : table.get? id = some entry)
    (secondFound : table.get? secondId = some other) (different : id ≠ secondId) :
    (table.exchanged id secondId entry other).exchanged id secondId
      (entry.withContents other) (other.withContents entry) = table := by
  have first : (table.exchanged id secondId entry other).get? id =
      some (entry.withContents other) := by
    rw [get_exchanged found secondFound, if_neg (Ne.symm different), if_pos rfl]
  have later : (table.exchanged id secondId entry other).get? secondId =
      some (other.withContents entry) := by
    rw [get_exchanged found secondFound, if_pos rfl]
  apply ext_get (by simp [exchanged])
  intro slot
  rw [get_exchanged first later, get_exchanged found secondFound]
  by_cases second : secondId = slot
  · rw [if_pos second, ← second, secondFound]
    rfl
  · by_cases here : id = slot
    · rw [if_neg second, if_pos here, ← here, found]
      rfl
    · rw [if_neg second, if_neg here, if_neg second, if_neg here]

theorem swap_swap (distinct : table.NamesDistinct) (name second : String) :
    ((table.swap name second).1.swap name second).1 = table := by
  obtain ⟨fault, refused, -⟩ |
      ⟨id, entry, secondId, other, found, secondFound, compatible, swapped⟩ :=
    swap_cases table name second
  · rw [refused, refused]
  · rw [swapped]
    split
    · rename_i same
      rw [swapped, if_pos same]
    · rename_i different
      have map := lookup_exchanged distinct found secondFound different
      have apart : name ≠ second := by
        rintro rfl
        rw [found] at secondFound
        cases secondFound
        exact different rfl
      have first : (table.exchanged id secondId entry other).lookup? name =
          some (id, entry.withContents other) := by
        rw [map, Function.update_of_ne apart, Function.update_self]
      have later : (table.exchanged id secondId entry other).lookup? second =
          some (secondId, other.withContents entry) := by
        rw [map, Function.update_self]
      obtain ⟨_, -, never⟩ | ⟨_, _, _, _, again, secondAgain, -, back⟩ :=
        swap_cases (table.exchanged id secondId entry other) name second
      · exact absurd ⟨compatible.1.symm, compatible.2.symm⟩ (never _ _ _ _ first later)
      · rw [first] at again
        rw [later] at secondAgain
        cases again
        cases secondAgain
        rw [back, if_neg different]
        exact exchanged_exchanged (get_of_lookup found).2.1 (get_of_lookup secondFound).2.1
          different

/-! ## The table as a map -/

/-- A table is a finite map from names to slots and the sets in them, on which the operations
on whole sets act as on a map. Those that fail leave the table as it is. -/
structure ActsAsMap [ForeignStorage σ] (table : Table σ) : Prop where
  finite : {name | table.lookup? name ≠ none}.Finite
  inside : ∀ name id entry, table.lookup? name = some (id, entry) → id < table.capacity
  slotsDistinct : ∀ name second id entry other, table.lookup? name = some (id, entry) →
    table.lookup? second = some (id, other) → name = second
  complete : ∀ id entry, table.get? id = some entry →
    table.lookup? entry.name.text = some (id, entry)
  namesDistinct : ∀ id second entry other, table.get? id = some entry →
    table.get? second = some other → id ≠ second → entry.name.text ≠ other.name.text
  -- A used name is found, a new one takes the least free slot.
  create_used : ∀ (creation : Creation) type storage id entry,
    table.lookup? creation.name.text = some (id, entry) →
      table.create creation type storage =
        (table, if creation.isMetBy type storage entry then .ok id else .error .setExists)
  create_full : ∀ (creation : Creation) type storage,
    table.lookup? creation.name.text = none →
      (∀ slot < table.capacity, ∃ entry, table.get? slot = some entry) →
        table.create creation type storage = (table, .error .tableFull) ∧
          Fault.tableFull.errno = .maxSets
  create_free : ∀ (creation : Creation) type storage slot,
    table.lookup? creation.name.text = none →
      IsLeast {slot | slot < table.capacity ∧ table.get? slot = none} slot →
        (table.create creation type storage).2 = .ok slot ∧
          (table.create creation type storage).1.lookup? =
            update table.lookup? creation.name.text (some (slot, creation.newSet type storage))
  -- Only an unused set is removed, and it gives back what it referred to.
  destroy_missing : ∀ name, table.lookup? name = none →
    table.destroy name = (table, .error .noSuchSet)
  destroy_used : ∀ name id entry, table.lookup? name = some (id, entry) →
    entry.references ≠ 0 → table.destroy name = (table, .error .setInUse)
  destroy_unused : ∀ name id entry, table.lookup? name = some (id, entry) →
    entry.references = 0 → (table.destroy name).2 = .ok () ∧
      (table.destroy name).1.lookup? = fun other =>
        (update table.lookup? name none other).map fun (slot, set) =>
          (slot, Entry.release^[entry.storage.members.count slot] set)
  destroyAll_used : (∃ name id entry, table.lookup? name = some (id, entry) ∧
    entry.references ≠ 0) → table.destroyAll = (table, .error .someSetInUse)
  destroyAll_unused : (∀ name id entry, table.lookup? name = some (id, entry) →
    entry.references = 0) → table.destroyAll.2 = .ok () ∧ table.destroyAll.1.lookup? = fun _ => none
  -- Only the key changes.
  rename_ok_iff : ∀ name newName, (table.rename name newName).2 = .ok () ↔
    (∃ id entry, table.lookup? name = some (id, entry) ∧ entry.references = 0) ∧
      table.lookup? newName.text = none
  rename_ok : ∀ name newName id entry, table.lookup? name = some (id, entry) →
    (table.rename name newName).2 = .ok () → (table.rename name newName).1.lookup? =
      update (update table.lookup? name none) newName.text
        (some (id, { entry with name := newName }))
  rename_error : ∀ name newName fault, (table.rename name newName).2 = .error fault →
    (table.rename name newName).1 = table
  -- Slots, names and reference counts stay where they are.
  swap_compatible : ∀ name second id entry secondId other,
    table.lookup? name = some (id, entry) → table.lookup? second = some (secondId, other) →
      Compatible entry other → (table.swap name second).2 = .ok () ∧
        (table.swap name second).1.lookup? =
          update (update table.lookup? name (some (id, entry.withContents other))) second
            (some (secondId, other.withContents entry))
  swap_error : ∀ name second fault, (table.swap name second).2 = .error fault →
    (table.swap name second).1 = table
  swap_twice : ∀ name second, ((table.swap name second).1.swap name second).1 = table

theorem finite_names (table : Table σ) : {name | table.lookup? name ≠ none}.Finite := by
  apply Set.Finite.subset
    ((Set.finite_lt_nat table.capacity).image fun slot =>
      ((table.get? slot).map fun entry => entry.name.text).getD "")
  intro name looked
  obtain ⟨⟨id, entry⟩, found⟩ := Option.ne_none_iff_exists'.mp looked
  obtain ⟨-, there, named⟩ := get_of_lookup found
  exact ⟨id, lt_capacity_of_get there, by simp [there, named]⟩

theorem create_free [ForeignStorage σ] (distinct : table.NamesDistinct) (creation : Creation)
    (type : SetType σ) (storage : Storage σ) (unused : table.lookup? creation.name.text = none)
    (least : IsLeast {slot | slot < table.capacity ∧ table.get? slot = none} id) :
    (table.create creation type storage).2 = .ok id ∧
      (table.create creation type storage).1.lookup? =
        update table.lookup? creation.name.text (some (id, creation.newSet type storage)) := by
  have free := free_of_isLeast least
  obtain ⟨_, _, found, -⟩ | ⟨-, full, -⟩ | ⟨slot, absent, first, created⟩ :=
    create_cases table creation type storage
  · rw [unused] at found
    contradiction
  · rw [free] at full
    contradiction
  · cases free.symm.trans first
    obtain ⟨vacant, inside, -⟩ := get_eq_none_of_free free
    have made : (table.set id (some (creation.newSet type storage))).NamesDistinct :=
      distinct.set_unused inside (lookup_eq_none_iff.mp absent)
    rw [created]
    refine ⟨rfl, ?_⟩
    rw [lookup_set distinct made inside, without_vacant distinct vacant]
    rfl

theorem destroy_unused (distinct : table.NamesDistinct)
    (found : table.lookup? name = some (id, entry)) (unused : entry.references = 0) :
    (table.destroy name).2 = .ok () ∧ (table.destroy name).1.lookup? = fun other =>
      (update table.lookup? name none other).map fun (slot, set) =>
        (slot, Entry.release^[entry.storage.members.count slot] set) := by
  obtain ⟨absent, -⟩ | ⟨_, _, there, used, -⟩ | ⟨_, _, there, -, removed⟩ :=
    destroy_cases table name
  · rw [absent] at found
    contradiction
  · cases found.symm.trans there
    contradiction
  · cases found.symm.trans there
    have inside := lt_capacity_of_get (get_of_lookup found).2.1
    rw [removed]
    refine ⟨rfl, ?_⟩
    rw [lookup_releaseAll (distinct.remove inside), lookup_set_none distinct inside,
      without_of_lookup found]

theorem rename_ok_iff (table : Table σ) (name : String) (newName : SetName) :
    (table.rename name newName).2 = .ok () ↔
      (∃ id entry, table.lookup? name = some (id, entry) ∧ entry.references = 0) ∧
        table.lookup? newName.text = none := by
  rw [lookup_eq_none_iff]
  obtain ⟨absent, refused⟩ | ⟨id, entry, found, used, refused⟩ |
      ⟨id, entry, found, unused, ⟨slot, taken⟩, refused⟩ |
      ⟨id, entry, found, unused, free, renamed⟩ := rename_cases table name newName
  · rw [refused]
    simp [absent]
  · rw [refused]
    simp [found, used]
  · rw [refused]
    simp [taken]
  · rw [renamed]
    exact ⟨fun _ => ⟨⟨id, entry, found, unused⟩, free⟩, fun _ => rfl⟩

theorem rename_ok (distinct : table.NamesDistinct)
    (found : table.lookup? name = some (id, entry)) (newName : SetName)
    (accepted : (table.rename name newName).2 = .ok ()) :
    (table.rename name newName).1.lookup? =
      update (update table.lookup? name none) newName.text
        (some (id, { entry with name := newName })) := by
  obtain ⟨-, refused⟩ | ⟨_, _, -, -, refused⟩ | ⟨_, _, -, -, -, refused⟩ |
      ⟨_, _, there, -, unused, renamed⟩ := rename_cases table name newName
  · simp [refused] at accepted
  · simp [refused] at accepted
  · simp [refused] at accepted
  · cases found.symm.trans there
    have inside := lt_capacity_of_get (get_of_lookup found).2.1
    have made : (table.set id (some { entry with name := newName })).NamesDistinct :=
      distinct.set_unused inside unused
    rw [renamed]
    change (table.set id _).lookup? = _
    rw [lookup_set distinct made inside, without_of_lookup found]

theorem swap_compatible (distinct : table.NamesDistinct)
    (found : table.lookup? name = some (id, entry))
    (secondFound : table.lookup? second = some (secondId, other))
    (compatible : Compatible entry other) :
    (table.swap name second).2 = .ok () ∧ (table.swap name second).1.lookup? =
      update (update table.lookup? name (some (id, entry.withContents other))) second
        (some (secondId, other.withContents entry)) := by
  obtain ⟨_, -, never⟩ | ⟨_, _, _, _, there, secondThere, -, swapped⟩ :=
    swap_cases table name second
  · exact absurd compatible (never _ _ _ _ found secondFound)
  · cases found.symm.trans there
    cases secondFound.symm.trans secondThere
    rw [swapped]
    refine ⟨rfl, ?_⟩
    by_cases same : id = secondId
    · subst same
      obtain ⟨-, here, named⟩ := get_of_lookup found
      obtain ⟨-, secondHere, secondNamed⟩ := get_of_lookup secondFound
      cases here.symm.trans secondHere
      cases named.symm.trans secondNamed
      rw [if_pos rfl, Function.update_idem]
      change _ = update table.lookup? name (some (id, entry))
      rw [← found, Function.update_eq_self]
    · rw [if_neg same]
      exact lookup_exchanged distinct found secondFound same

/-- Distinct names are all that it takes. -/
theorem NamesDistinct.actsAsMap [ForeignStorage σ] (distinct : table.NamesDistinct) :
    table.ActsAsMap where
  finite := table.finite_names
  inside name id entry found := lt_capacity_of_get (get_of_lookup found).2.1
  slotsDistinct name second id entry other found secondFound := by
    obtain ⟨-, there, named⟩ := get_of_lookup found
    obtain ⟨-, here, secondNamed⟩ := get_of_lookup secondFound
    cases there.symm.trans here
    exact named.symm.trans secondNamed
  complete id entry found := distinct.lookup_iff.mpr ⟨found, rfl⟩
  namesDistinct id second entry other found secondFound different same :=
    different (distinct id second entry other found secondFound same)
  create_used creation type storage id entry found := create_found found type storage
  create_full creation type storage unused full := by
    refine ⟨?_, rfl⟩
    simp only [Table.create, unused, free_eq_none_of_full full]
  create_free creation type storage slot unused least :=
    create_free distinct creation type storage unused least
  destroy_missing name absent := by simp only [Table.destroy, absent]
  destroy_used name id entry found used := by simp [Table.destroy, found, used]
  destroy_unused name id entry found unused := destroy_unused distinct found unused
  destroyAll_used := by
    rintro ⟨name, id, entry, found, used⟩
    obtain ⟨-, refused⟩ | ⟨unused, -⟩ := destroyAll_cases table
    · exact refused
    · exact absurd (unused id entry (get_of_lookup found).2.1) used
  destroyAll_unused unused := by
    obtain ⟨⟨id, entry, there, used⟩, -⟩ | ⟨-, removed⟩ := destroyAll_cases table
    · exact absurd (unused _ id entry (distinct.lookup_iff.mpr ⟨there, rfl⟩)) used
    · rw [removed]
      exact ⟨rfl, lookup_eq (.empty table.capacity) (by simp)⟩
  rename_ok_iff name newName := table.rename_ok_iff name newName
  rename_ok name newName id entry found accepted := rename_ok distinct found newName accepted
  rename_error name newName fault refused := by
    obtain ⟨-, same⟩ | ⟨_, _, -, -, same⟩ | ⟨_, _, -, -, -, same⟩ | ⟨_, _, -, -, -, renamed⟩ :=
      rename_cases table name newName
    · rw [same]
    · rw [same]
    · rw [same]
    · simp [renamed] at refused
  swap_compatible name second id entry secondId other found secondFound compatible :=
    swap_compatible distinct found secondFound compatible
  swap_error name second fault refused := by
    obtain ⟨_, same, -⟩ | ⟨_, _, _, _, -, -, -, swapped⟩ := swap_cases table name second
    · rw [same]
    · simp [swapped] at refused
  swap_twice := swap_swap distinct

end NamedSets.Table
