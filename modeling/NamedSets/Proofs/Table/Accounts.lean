import NamedSets.Proofs.Table.Slots

/-!
# Accounts of references

A reference to a slot is held by a list of sets that has the slot as a member, or from
outside the table. The outside is a list of slots with one entry for every reference, so
that handing a reference over to a list, or taking it back, moves an entry between the
outside and the members and changes no count.
-/

namespace NamedSets

variable {σ : Type}

def Entry.Builtin (entry : Entry σ) : Prop :=
  match entry.storage with
  | .hash _ => entry.type = .addressHash
  | .list _ => entry.type = .setList
  | .foreign _ => False

theorem Entry.Builtin.not_foreign {entry : Entry σ} (builtin : entry.Builtin) (inner : σ) :
    entry.storage ≠ .foreign inner := by
  intro stored
  simp only [Entry.Builtin, stored] at builtin

/-- The storage is well formed and, if the catalog is closed to types from outside, of the
built-in type that the set has. -/
structure Entry.Valid (entry : Entry σ) (closed : Prop := True) : Prop where
  builtin : closed → entry.Builtin
  distinct : entry.storage.members.Nodup
  bounded : ∀ list, entry.storage = .list list → list.members.length ≤ list.size.toNat

namespace Table

variable {table : Table σ} {id slot target member : Nat} {entry : Entry σ}

def membersOf : Option (Entry σ) → List Nat
  | none => []
  | some entry => entry.storage.members

def referencesOf : Option (Entry σ) → Nat
  | none => 0
  | some entry => entry.references.toNat

def members (table : Table σ) (id : Nat) : List Nat := membersOf (table.get? id)

def references (table : Table σ) (id : Nat) : Nat := referencesOf (table.get? id)

def referrers (table : Table σ) (target : Nat) : Nat :=
  (List.range table.capacity).countP fun slot => target ∈ table.members slot

/-- The slot holds a set that a list of sets may have as a member. -/
def Plain (table : Table σ) (id : Nat) : Prop :=
  ∃ entry, table.get? id = some entry ∧ entry.type.features.listedLast = false

/-! ## Counting referrers -/

theorem members_of_get (found : table.get? id = some entry) :
    table.members id = entry.storage.members := by
  rw [members, found, membersOf]

theorem members_eq_nil_of_get (vacant : table.get? id = none) : table.members id = [] := by
  rw [members, vacant, membersOf]

theorem references_of_get (found : table.get? id = some entry) :
    table.references id = entry.references.toNat := by
  rw [references, found, referencesOf]

theorem references_eq_zero_of_get (vacant : table.get? id = none) : table.references id = 0 := by
  rw [references, vacant, referencesOf]

theorem mem_members (present : member ∈ table.members id) :
    ∃ entry, table.get? id = some entry ∧ member ∈ entry.storage.members := by
  cases found : table.get? id with
  | none => simp [members_eq_nil_of_get found] at present
  | some entry => exact ⟨entry, rfl, by rwa [members_of_get found] at present⟩

theorem members_set (inside : id < table.capacity) (content : Option (Entry σ)) (slot : Nat) :
    (table.set id content).members slot =
      if id = slot then membersOf content else table.members slot := by
  unfold members
  rw [get_set_inside inside]
  split <;> rfl

theorem references_set (inside : id < table.capacity) (content : Option (Entry σ)) (slot : Nat) :
    (table.set id content).references slot =
      if id = slot then referencesOf content else table.references slot := by
  unfold references
  rw [get_set_inside inside]
  split <;> rfl

theorem referrers_eq_zero_iff :
    table.referrers target = 0 ↔ ∀ slot, target ∉ table.members slot := by
  rw [referrers, List.countP_eq_zero]
  constructor
  · intro none slot present
    obtain ⟨entry, found, -⟩ := mem_members present
    exact none slot (List.mem_range.mpr (lt_capacity_of_get found)) (decide_eq_true present)
  · intro none slot _ present
    exact none slot (of_decide_eq_true present)

/-- Two tests that differ in one place count differently by the answers in that place. -/
private theorem countP_range_update (first second : Nat → Bool) {bound place : Nat}
    (inside : place < bound) (agree : ∀ other, other ≠ place → first other = second other) :
    (List.range bound).countP first + (if second place then 1 else 0) =
      (List.range bound).countP second + (if first place then 1 else 0) := by
  induction bound with
  | zero => omega
  | succ bound ih =>
      rw [List.range_succ, List.countP_append, List.countP_append, List.countP_singleton,
        List.countP_singleton]
      by_cases last : place = bound
      · subst last
        have before : (List.range place).countP first = (List.range place).countP second :=
          List.countP_congr fun other below => by
            rw [agree other (Nat.ne_of_lt (List.mem_range.mp below))]
        omega
      · have earlier := ih (by omega)
        rw [agree bound (Ne.symm last)]
        omega

/-- New contents of a slot count as a referrer in the place of the old ones. -/
theorem referrers_set (inside : id < table.capacity) (content : Option (Entry σ))
    (target : Nat) :
    (table.set id content).referrers target + (if target ∈ table.members id then 1 else 0) =
      table.referrers target + (if target ∈ membersOf content then 1 else 0) := by
  have there : (table.set id content).members id = membersOf content := by
    rw [members_set inside, if_pos rfl]
  have update := countP_range_update (fun slot => target ∈ (table.set id content).members slot)
    (fun slot => target ∈ table.members slot) inside fun slot other => by
      rw [members_set inside, if_neg (Ne.symm other)]
  simp only [decide_eq_true_eq, there] at update
  simpa only [referrers, capacity_set] using update

/-! ## Sound accounts -/

/-- The table holds valid sets only, the members of its lists are sets that a list may have,
and the reference count of every slot is the number of those who hold a reference to it. -/
structure Sound (table : Table σ) (outside : List Nat) (closed : Prop := True) : Prop where
  valid : ∀ {id entry}, table.get? id = some entry → entry.Valid closed
  plain : ∀ {id member}, member ∈ table.members id → table.Plain member
  counted : ∀ id, table.references id = table.referrers id + outside.count id

/-- A set that a list may have as a member stays one wherever else the table changes. -/
theorem Plain.set {content : Option (Entry σ)} (plain : table.Plain member)
    (inside : id < table.capacity)
    (same : id = member → ∃ new, content = some new ∧ new.type.features.listedLast = false) :
    (table.set id content).Plain member := by
  obtain ⟨entry, there, ordinary⟩ := plain
  unfold Plain
  rw [get_set_inside inside]
  by_cases here : id = member
  · rw [if_pos here]
    exact same here
  · rw [if_neg here]
    exact ⟨entry, there, ordinary⟩

namespace Sound

variable {outside later : List Nat} {old new : Entry σ} {closed : Prop}

theorem perm (sound : table.Sound outside closed) (same : outside.Perm later) : table.Sound later closed where
  valid := sound.valid
  plain := sound.plain
  counted id := by rw [sound.counted, same.count_eq]

theorem distinct (sound : table.Sound outside closed) (id : Nat) : (table.members id).Nodup := by
  cases found : table.get? id with
  | none =>
      rw [members_eq_nil_of_get found]
      exact List.nodup_nil
  | some entry =>
      rw [members_of_get found]
      exact (sound.valid found).distinct

theorem counted_of_get (sound : table.Sound outside closed) (found : table.get? id = some entry) :
    entry.references.toNat = table.referrers id + outside.count id := by
  rw [← references_of_get found]
  exact sound.counted id

/-- Nobody refers to an empty slot. -/
theorem vacant (sound : table.Sound outside closed) (free : table.get? id = none) :
    table.referrers id = 0 ∧ id ∉ outside := by
  have total := sound.counted id
  rw [references_eq_zero_of_get free] at total
  have unlisted : table.referrers id = 0 := by omega
  have unheld : outside.count id = 0 := by omega
  exact ⟨unlisted, List.count_eq_zero.mp unheld⟩

theorem not_foreign {storage : σ} (sound : table.Sound outside)
    (found : table.get? id = some entry) : entry.storage ≠ .foreign storage :=
  ((sound.valid found).builtin trivial).not_foreign storage

theorem plain_of_get (sound : table.Sound outside closed) (found : table.get? id = some entry) :
    ∀ member ∈ entry.storage.members, table.Plain member := by
  intro member present
  rw [← members_of_get found] at present
  exact sound.plain present

/-- Nobody refers to a set whose reference count is zero. -/
theorem unreferenced (sound : table.Sound outside closed) (found : table.get? id = some entry)
    (unused : entry.references = 0) : (∀ slot, id ∉ table.members slot) ∧ id ∉ outside := by
  have total := sound.counted_of_get found
  rw [unused, UInt32.toNat_zero] at total
  have unlisted : table.referrers id = 0 := by omega
  have unheld : outside.count id = 0 := by omega
  exact ⟨referrers_eq_zero_iff.mp unlisted, List.count_eq_zero.mp unheld⟩

theorem references_ne_zero (sound : table.Sound outside closed) (held : id ∈ outside) :
    ∃ entry, table.get? id = some entry ∧ entry.references ≠ 0 := by
  cases found : table.get? id with
  | none => exact absurd held (sound.vacant found).2
  | some entry =>
      exact ⟨entry, rfl, fun unused => (sound.unreferenced found unused).2 held⟩

/-! ## Changing a slot -/

/-- What is in a slot may be changed if the references to every slot are afterwards held by
as many as before, but for the change of the count itself. -/
theorem set {content : Option (Entry σ)} (sound : table.Sound outside closed)
    (inside : id < table.capacity) (valid : ∀ new, content = some new → new.Valid closed)
    (plain : ∀ slot member, member ∈ (table.set id content).members slot →
      (table.set id content).Plain member)
    (balance : ∀ target, later.count target + (membersOf content).count target +
        (if id = target then table.references id else 0) =
      outside.count target + (table.members id).count target +
        (if id = target then referencesOf content else 0)) :
    (table.set id content).Sound later closed where
  valid := by
    intro slot entry there
    rw [get_set_inside inside] at there
    split at there
    · exact valid entry there
    · exact sound.valid there
  plain := plain _ _
  counted := by
    intro target
    have total := balance target
    have before := sound.counted target
    have referred := referrers_set inside content target
    have distinct : (membersOf content).Nodup := by
      cases filled : content with
      | none => exact List.nodup_nil
      | some new => exact (valid new filled).distinct
    rw [(sound.distinct id).count, distinct.count] at total
    rw [references_set inside]
    split
    · rename_i same
      subst same
      rw [if_pos rfl, if_pos rfl] at total
      omega
    · rename_i different
      rw [if_neg different, if_neg different] at total
      omega

/-- A set may be replaced by a valid one of the same features. -/
theorem replace (sound : table.Sound outside closed) (found : table.get? id = some old)
    (valid : new.Valid closed) (features : new.type.features = old.type.features)
    (plain : ∀ member ∈ new.storage.members, table.Plain member)
    (balance : ∀ target, later.count target + new.storage.members.count target +
        (if id = target then old.references.toNat else 0) =
      outside.count target + old.storage.members.count target +
        (if id = target then new.references.toNat else 0)) :
    (table.set id (some new)).Sound later closed := by
  have inside := lt_capacity_of_get found
  apply sound.set inside
  · rintro _ ⟨⟩
    exact valid
  · intro slot member present
    have before : table.Plain member := by
      rw [members_set inside] at present
      split at present
      · exact plain member present
      · exact sound.plain present
    refine before.set inside fun same => ⟨new, rfl, ?_⟩
    obtain ⟨entry, there, ordinary⟩ := before
    subst same
    cases found.symm.trans there
    rw [features, ordinary]
  · intro target
    rw [references_of_get found, members_of_get found]
    exact balance target

end Sound

end Table

end NamedSets
