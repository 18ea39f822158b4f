import NamedSets.Proofs.Session.Listings

/-!
# Listings of lists

A dump resumes a list behind the position of the last member that it has listed. An edit in front
of this position shifts the members behind it, so that the dump loses one of them or lists one
twice. This is all that can go wrong.
-/

namespace NamedSets.Session

variable {σ : Type} [ForeignStorage σ] {start : Session σ} {operations : List (Operation σ)}
  {index slot : Nat} {data : List Datum}

/-- A member that stays in a list while the list is listed is listed once, more often by one for
each time that an operation in between shifts it behind the position to which the dump has come,
and less often by one for each time that one shifts it in front of this position. It is listed
exactly once if all operations in between leave the members in front as they are. -/
theorem list_listing_accounts (reachable : start.Reachable Balanced)
    (listing : start.Listing index slot operations)
    (stays : ∀ moment ∈ start.history (.stepDump index :: operations),
      data ∈ moment.session.elementsAt slot) :
    ((start.listed (.stepDump index :: operations) index).count data +
        (start.history (.stepDump index :: operations)).countP (skips index slot data) =
      1 + (start.history (.stepDump index :: operations)).countP (repeats index slot data)) ∧
    ((∀ moment ∈ start.history (.stepDump index :: operations), moment.answer? index = none →
      (moment.session.after moment.operation).passed index slot =
        moment.session.passed index slot) →
      (start.listed (.stepDump index :: operations) index).count data = 1) := by
  refine ⟨listing.count reachable stays, fun same => ?_⟩
  refine listing.count_of_steady reachable stays fun moment present quiet => ?_
  rw [same moment present quiet]

/-! ## A list that changes while it is listed -/

def longName (number : Fin 11) : SetName where
  text := String.ofList (List.replicate 30 'x' ++ [Char.ofNat (97 + number)])
  nonempty := by revert number; decide +kernel
  short := by revert number; decide +kernel
  noNul := by revert number; decide +kernel

def listingList : Message.Request where
  header := { length := 36, messageType := 0x607, flags := 0x301, sequence := 5, sender := 9 }
  body := { family := 0, version := 0, resource := 0 }
  command := .list
  arguments := [.protocol protocolVersion, .setName listName]
  raw := []

/-- The operations that make a list of eleven sets and start to list it. -/
def gathering : List (Operation Empty) :=
  (List.finRange 11).map (fun number => creating (longName number) "hash:ip") ++
    [.create { name := listName, typeName := "list:set", family := .ipv4, revision := 0,
               data := [.size 16], allowExisting := false }] ++
    (List.finRange 11).map (fun number => .addElement 11 [.name (longName number)]) ++
      [.startDump true listingList]

def gathered : Session Empty :=
  (fresh { maxSets := 16, dumpMessageSize := 512 } .builtin).run gathering

theorem gathered_reachable : gathered.Reachable Balanced := by
  refine Reachable.run (.fresh Balanced _ _) (.of_few ?_ (by decide +kernel))
  simp only [gathering, List.mem_append, List.mem_map, List.mem_singleton]
  rintro _ (((⟨number, -, rfl⟩ | rfl) | ⟨number, -, rfl⟩) | rfl) <;> trivial

theorem gathered_opens : ∃ entry, (gathered.turn 0).headed? 0 = some (11, entry) := by
  obtain ⟨here, occupied⟩ :
      gathered.dumps[0]? = some {
        mode := .one, slot := 11, cursor := none, sequence := 5, sender := 9, finished := false } ∧
      (gathered.table.get? 11).isSome := by decide +kernel
  obtain ⟨entry, there⟩ := Option.isSome_iff_exists.mp occupied
  exact ⟨entry, gathered_reachable.headed_one here rfl rfl rfl there⟩

/-- A member is deleted between the two messages about the list. -/
def deleting (number : Fin 11) : List (Operation Empty) :=
  [.deleteElement 11 [.name (longName number)], .stepDump 0]

theorem deleting_listing (number : Fin 11)
    (goes : ∀ moment ∈ (gathered.after (.stepDump 0)).history (deleting number),
      moment.session.listing? 0 = some 11)
    (ends : (gathered.run (.stepDump 0 :: deleting number)).listing? 0 = none) :
    gathered.Listing 0 11 (deleting number) where
  balanced := .of_few (by simp [deleting, Operation.Direct]) (by
    have few : gathered.table.capacity + gathered.dumps.length + gathered.holds.length + 3 <
      UInt32.size := by decide +kernel
    exact few)
  unended := by simp [deleting]
  opens := gathered_opens
  goes := goes
  ends := ends

/-- The member that is deleted has not been listed, so the others stay where they are. -/
theorem list_listing_accounts_gathered :
    gathered.Reachable Balanced ∧ gathered.Listing 0 11 (deleting 10) ∧
      (∀ moment ∈ gathered.history (.stepDump 0 :: deleting 10),
        [.name (longName 5)] ∈ moment.session.elementsAt 11) ∧
      (gathered.listed (.stepDump 0 :: deleting 10) 0).count [.name (longName 5)] = 1 := by
  -- All that is to be evaluated stands together, so that the run is evaluated once.
  obtain ⟨goes, ends, stays, same⟩ :
      (∀ moment ∈ (gathered.after (.stepDump 0)).history (deleting 10),
        moment.session.listing? 0 = some 11) ∧
      (gathered.run (.stepDump 0 :: deleting 10)).listing? 0 = none ∧
      (∀ moment ∈ gathered.history (.stepDump 0 :: deleting 10),
        [.name (longName 5)] ∈ moment.session.elementsAt 11) ∧
      (∀ moment ∈ gathered.history (.stepDump 0 :: deleting 10), moment.answer? 0 = none →
        (moment.session.after moment.operation).passed 0 11 = moment.session.passed 0 11) := by
    decide +kernel
  have listing : gathered.Listing 0 11 (deleting 10) := deleting_listing 10 goes ends
  exact ⟨gathered_reachable, listing, stays,
    (list_listing_accounts gathered_reachable listing stays).2 same⟩

/-- A member that has been listed is deleted, and the one that is next to be listed is lost, which
is in the list all the time. -/
theorem member_lost :
    gathered.Reachable Balanced ∧
      (∃ list, gathered.table.storage? 11 = some (.list list)) ∧
      gathered.Listing 0 11 [.deleteElement 11 [.name (longName 0)], .stepDump 0] ∧
      (∀ moment ∈ gathered.history
          [.stepDump 0, .deleteElement 11 [.name (longName 0)], .stepDump 0],
        [.name (longName 10)] ∈ moment.session.elementsAt 11) ∧
      (gathered.listed [.stepDump 0, .deleteElement 11 [.name (longName 0)], .stepDump 0] 0).count
        [.name (longName 10)] = 0 := by
  obtain ⟨goes, ends, stays, skipped, repeated, member⟩ :
      (∀ moment ∈ (gathered.after (.stepDump 0)).history (deleting 0),
        moment.session.listing? 0 = some 11) ∧
      (gathered.run (.stepDump 0 :: deleting 0)).listing? 0 = none ∧
      (∀ moment ∈ gathered.history (.stepDump 0 :: deleting 0),
        [.name (longName 10)] ∈ moment.session.elementsAt 11) ∧
      (gathered.history (.stepDump 0 :: deleting 0)).countP
        (skips 0 11 [.name (longName 10)]) = 1 ∧
      (gathered.history (.stepDump 0 :: deleting 0)).countP
        (repeats 0 11 [.name (longName 10)]) = 0 ∧
      0 ∈ gathered.table.members 11 := by decide +kernel
  have listing : gathered.Listing 0 11 (deleting 0) := deleting_listing 0 goes ends
  have stored : ∃ list, gathered.table.storage? 11 = some (.list list) := by
    obtain ⟨entry, there, member⟩ := Table.mem_members member
    cases kind : entry.storage with
    | list list => exact ⟨list, Table.storage_of_get there kind⟩
    | hash hash => simp [kind, Storage.members] at member
    | foreign storage => exact storage.elim
  have account := listing.count gathered_reachable stays
  rw [skipped, repeated] at account
  exact ⟨gathered_reachable, stored, listing, stays, Nat.succ.inj account⟩

end NamedSets.Session
