import NamedSets.Proofs.Session.Listings
import NamedSets.Proofs.Session.Stability
import NamedSets.Proofs.Session.Undisturbed
import NamedSets.Proofs.Table.Nesting

namespace NamedSets.Session

variable {σ : Type} [ForeignStorage σ] {session start : Session σ} {operation : Operation σ}
  {operations : List (Operation σ)} {index slot : Nat} {hash : AddressHash} {address : Address}

def Spares (session : Session σ) (slot : Nat) (operation : Operation σ) : Prop :=
  ∀ entry, session.table.get? slot = some entry → entry.name.text ∉ operation.swapped

/-- While a hash is listed it is only edited, unless it is exchanged. -/
theorem Reachable.hash_kept (reachable : session.Reachable Balanced)
    (started : session.listing? index = some slot)
    (stored : session.table.storage? slot = some (.hash hash))
    (spared : session.Spares slot operation) :
    ∃ kind new, (session.after operation).table.storage? slot = some (.hash new) ∧
      hash.Keeps kind new := by
  obtain ⟨dump, here, cursor, same⟩ := listing_eq_some_iff.mp started
  have held : session.Holds slot := .inr (.inl ⟨dump, List.mem_of_getElem? here, cursor, same⟩)
  obtain ⟨entry, there, used⟩ := reachable.sound.references_ne_zero held
  have content : entry.storage = .hash hash :=
    Option.some.inj ((Table.storage_of_get there rfl).symm.trans stored)
  exact (session.after_course operation).hash_kept there content used (spared entry there)

theorem Reachable.hash_stays (reachable : session.Reachable Balanced)
    (balanced : session.AllBalanced operations)
    (goes : ∀ moment ∈ session.history operations, moment.session.listing? index = some slot)
    (spared : ∀ moment ∈ session.history operations, moment.session.Spares slot moment.operation)
    (stored : session.table.storage? slot = some (.hash hash)) :
    ∀ moment ∈ session.history operations,
      ∃ hash, moment.session.table.storage? slot = some (.hash hash) := by
  induction operations generalizing session hash with
  | nil => simp [history]
  | cons operation rest ih =>
      refine List.forall_mem_cons.mpr ⟨⟨hash, stored⟩, ?_⟩
      obtain ⟨-, new, later, -⟩ := reachable.hash_kept
        (goes { session, operation } List.mem_cons_self) stored
        (spared { session, operation } List.mem_cons_self)
      exact ih (reachable.after operation balanced.head) balanced.tail
        (fun moment behind => goes moment (List.mem_cons_of_mem _ behind))
        (fun moment behind => spared moment (List.mem_cons_of_mem _ behind)) later

omit [ForeignStorage σ] in
theorem mem_placed_hash {place : Nat}
    (stored : session.table.storage? slot = some (.hash hash)) :
    (place, [Datum.ip address]) ∈ session.placed slot ↔ (place, address) ∈ hash.elements := by
  simp only [placed, stored, Table.elements, List.mem_map]
  constructor
  · rintro ⟨element, present, same⟩
    obtain ⟨rfl, rfl⟩ : element.1 = place ∧ element.2 = address := by simpa using same
    exact present
  · intro present
    exact ⟨_, present, rfl⟩

/-- No operation but its steps takes an address of a listed hash across the place to which the
dump has come. -/
theorem Reachable.hash_steady (reachable : session.Reachable Balanced)
    (balanced : session.Balanced operation) (started : session.listing? index = some slot)
    (stored : session.table.storage? slot = some (.hash hash))
    (spared : session.Spares slot operation) (step : operation ≠ .stepDump index)
    (notEnd : operation ≠ .endDump index)
    (before : [.ip address] ∈ session.elementsAt slot)
    (behind : [.ip address] ∈ (session.after operation).elementsAt slot) :
    [.ip address] ∈ session.passed index slot ↔
      [.ip address] ∈ (session.after operation).passed index slot := by
  have reachableAfter := reachable.after operation balanced
  obtain ⟨dump, here, -, -⟩ := listing_eq_some_iff.mp started
  have kept := dump_after here step notEnd
  obtain ⟨kind, new, later, keeps⟩ := reachable.hash_kept started stored spared
  obtain ⟨place, present⟩ := mem_elementsAt.mp before
  obtain ⟨other, presentLater⟩ := mem_elementsAt.mp behind
  -- The place of an address is its sequence number, which an edit keeps.
  have same : place = other :=
    keeps.sequence_eq (reachable.hashesValid slot hash stored)
      (reachableAfter.hashesValid slot new later) ((mem_placed_hash stored).mp present)
      ((mem_placed_hash later).mp presentLater)
  subst same
  rw [reachable.mem_passed here present, reachableAfter.mem_passed kept presentLater]

/-- However other operations come between its messages, a listing of a hash is exact, as long as
the set is not exchanged: every address that stays in the set is listed exactly once, and every
element that a message lists is an address that is in the set at that moment. -/
theorem hash_listing_exact (reachable : start.Reachable Balanced)
    (listing : start.Listing index slot operations)
    (stored : start.table.storage? slot = some (.hash hash))
    (spared : ∀ moment ∈ start.history (.stepDump index :: operations),
      moment.session.Spares slot moment.operation) :
    (∀ address : Address,
      (∀ moment ∈ start.history (.stepDump index :: operations),
        [.ip address] ∈ moment.session.elementsAt slot) →
      (start.listed (.stepDump index :: operations) index).count [.ip address] = 1) ∧
    (∀ moment ∈ start.history (.stepDump index :: operations), ∀ page,
      moment.page? index = some page → ∀ data ∈ page.elements,
        ∃ address : Address, data = [.ip address] ∧
          [.ip address] ∈ moment.session.elementsAt slot) := by
  have reachableAfter := reachable.after (.stepDump index) listing.balanced.head
  have storedAfter : (start.after (.stepDump index)).table.storage? slot = some (.hash hash) :=
    ((start.step_keeps index).1 slot).trans stored
  have hashes : ∀ moment ∈ start.history (.stepDump index :: operations),
      ∃ hash, moment.session.table.storage? slot = some (.hash hash) :=
    List.forall_mem_cons.mpr ⟨⟨hash, stored⟩,
      reachableAfter.hash_stays listing.balanced.tail listing.goes
        (fun moment later => spared moment (List.mem_cons_of_mem _ later)) storedAfter⟩
  refine ⟨fun address stays => ?_, fun moment present page told data listed => ?_⟩
  · refine listing.count_of_steady reachable stays fun moment present quiet => ?_
    obtain ⟨later, step, notEnd, next, among, follows⟩ := listing.next reachable present quiet
    obtain ⟨hash, stored⟩ := hashes moment present
    exact (reachable.moment listing.balanced present).hash_steady
      (listing.balanced moment present) (listing.goes moment later) stored
      (spared moment present) step notEnd (stays moment present) (follows ▸ stays next among)
  · have inside := listing.elements_subset reachable present told listed
    obtain ⟨hash, stored⟩ := hashes moment present
    obtain ⟨place, there⟩ := mem_elementsAt.mp inside
    rw [placed, stored] at there
    obtain ⟨element, -, same⟩ := List.mem_map.mp there
    cases same
    exact ⟨element.2, rfl, inside⟩

/-! ## A set that changes while it is listed -/

def numbered (number : Nat) : Datum := .ip (.v4 (BitVec.ofNat 32 number))

def listingMembers : Message.Request where
  header := { length := 36, messageType := 0x607, flags := 0x301, sequence := 5, sender := 9 }
  body := { family := 0, version := 0, resource := 0 }
  command := .list
  arguments := [.protocol protocolVersion, .setName memberName]
  raw := []

def filling : List (Operation Empty) :=
  creating memberName "hash:ip" ::
    (List.range 64).map (fun number => .addElement 0 [numbered number]) ++
      [.startDump true listingMembers]

def filled : Session Empty := (fresh { maxSets := 4, dumpMessageSize := 512 } .builtin).run filling

/-- What happens between the messages about the set: an address is deleted that has been listed,
it is added again, and so is another one. -/
def disturbing : List (Operation Empty) :=
  [.deleteElement 0 [numbered 3], .stepDump 0, .addElement 0 [numbered 3],
    .addElement 0 [numbered 90], .stepDump 0]

theorem filled_reachable : filled.Reachable Balanced := by
  refine Reachable.run (.fresh Balanced _ _) (.of_few ?_ (by decide +kernel))
  simp only [filling, List.mem_append, List.mem_cons, List.mem_map, List.not_mem_nil, or_false]
  rintro _ ((rfl | ⟨number, -, rfl⟩) | rfl) <;> trivial

theorem filled_hash : ∃ hash, filled.table.storage? 0 = some (.hash hash) := by
  have plain : filled.table.Plain 0 := by
    have ordinary : (filled.table.get? 0).any (!·.type.features.listedLast) := by decide +kernel
    obtain ⟨entry, there, kind⟩ := (Option.any_eq_true _ _).mp ordinary
    exact ⟨entry, there, by simpa using kind⟩
  obtain ⟨entry, hash, there, stored⟩ := filled_reachable.sound.table.hash_of_plain plain
  exact ⟨hash, Table.storage_of_get there stored⟩

theorem disturbing_spares : ∀ moment ∈ filled.history (.stepDump 0 :: disturbing),
    moment.session.Spares 0 moment.operation := by
  have exchanges : ∀ operation ∈ (.stepDump 0 :: disturbing : List (Operation Empty)),
      operation.swapped = [] := by
    simp [disturbing, Operation.swapped]
  intro moment present entry _
  simp [exchanges moment.operation (operation_mem present)]

theorem disturbed_listing : filled.Listing 0 0 disturbing := by
  -- All that is to be evaluated stands together, so that the run is evaluated once.
  obtain ⟨few, here, occupied, goes, ends⟩ :
      filled.table.capacity + filled.dumps.length + filled.holds.length +
        (.stepDump 0 :: disturbing : List (Operation Empty)).length < UInt32.size ∧
      filled.dumps[0]? = some { sweep with mode := .one } ∧
      (filled.table.get? 0).isSome ∧
      (∀ moment ∈ (filled.after (.stepDump 0)).history disturbing,
        moment.session.listing? 0 = some 0) ∧
      (filled.run (.stepDump 0 :: disturbing)).listing? 0 = none := by decide +kernel
  obtain ⟨entry, there⟩ := Option.isSome_iff_exists.mp occupied
  exact {
    balanced := .of_few (by simp [disturbing, Operation.Direct]) few
    unended := by simp [disturbing]
    opens := ⟨entry, filled_reachable.headed_one here rfl rfl rfl there⟩
    goes
    ends }

theorem hash_listing_exact_filled :
    filled.Reachable Balanced ∧ filled.Listing 0 0 disturbing ∧
      (∃ hash, filled.table.storage? 0 = some (.hash hash)) ∧
      (∀ moment ∈ filled.history (.stepDump 0 :: disturbing),
        moment.session.Spares 0 moment.operation) ∧
      (∀ moment ∈ filled.history (.stepDump 0 :: disturbing),
        [numbered 60] ∈ moment.session.elementsAt 0) ∧
      (filled.listed (.stepDump 0 :: disturbing) 0).count [numbered 60] = 1 := by
  have stays : ∀ moment ∈ filled.history (.stepDump 0 :: disturbing),
      [numbered 60] ∈ moment.session.elementsAt 0 := by decide +kernel
  obtain ⟨hash, stored⟩ := filled_hash
  obtain ⟨once, -⟩ := hash_listing_exact filled_reachable disturbed_listing stored disturbing_spares
  exact ⟨filled_reachable, disturbed_listing, filled_hash, disturbing_spares, stays, once _ stays⟩

end NamedSets.Session
