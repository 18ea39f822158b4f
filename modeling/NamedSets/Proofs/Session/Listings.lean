import NamedSets.Proofs.Session.Turns

/-!
# Listings

A listing is the part of a run from the first message of a dump about a set to the last one. What
happens to the set in between decides what the messages list.
-/

namespace NamedSets.Session

open Table (SameLabels)

variable {σ : Type} {session start : Session σ} {operation : Operation σ}
  {operations : List (Operation σ)} {dump : Dump} {index slot place : Nat} {data : List Datum}

def placed (session : Session σ) (slot : Nat) : List (Nat × List Datum) :=
  match session.table.storage? slot with
  | some storage => session.table.elements storage
  | none => []

def elementsAt (session : Session σ) (slot : Nat) : List (List Datum) :=
  (session.placed slot).map (·.2)

def listing? (session : Session σ) (index : Nat) : Option Nat :=
  session.dumps[index]?.bind Dump.heldSlot?

def passed (session : Session σ) (index slot : Nat) : List (List Datum) :=
  match session.dumps[index]? with
  | some dump => ((session.placed slot).filter (·.1 < dump.place)).map (·.2)
  | none => []

theorem listing_eq_some_iff : session.listing? index = some slot ↔
    ∃ dump, session.dumps[index]? = some dump ∧ dump.cursor.isSome ∧ dump.slot = slot := by
  constructor
  · intro held
    obtain ⟨dump, here, holds⟩ := Option.bind_eq_some_iff.mp held
    obtain ⟨cursor, started, same⟩ := Option.map_eq_some_iff.mp holds
    exact ⟨dump, here, by simp [started], same⟩
  · rintro ⟨dump, here, started, rfl⟩
    obtain ⟨cursor, started⟩ := Option.isSome_iff_exists.mp started
    simp [listing?, here, Dump.heldSlot?, started]

theorem mem_elementsAt : data ∈ session.elementsAt slot ↔
    ∃ place, (place, data) ∈ session.placed slot := by
  simp [elementsAt]

theorem placed_of_get {entry : Entry σ} (there : session.table.get? slot = some entry) :
    session.placed slot = session.table.elements entry.storage := by
  simp only [placed, Table.storage_of_get there rfl]

theorem count_filter {elements : List (Nat × List Datum)} (test : Nat → Bool)
    (distinct : (elements.map (·.2)).Nodup) (present : (place, data) ∈ elements) :
    ((elements.filter (test ·.1)).map (·.2)).count data = if test place then 1 else 0 := by
  have once : ((elements.filter (test ·.1)).map (·.2)).Nodup :=
    distinct.sublist (List.filter_sublist.map _)
  split
  · rename_i passes
    refine List.count_eq_one_of_mem once (List.mem_map.mpr ⟨(place, data), ?_, rfl⟩)
    exact List.mem_filter.mpr ⟨present, passes⟩
  · rename_i fails
    refine List.count_eq_zero.mpr fun listed => ?_
    obtain ⟨element, among, same⟩ := List.mem_map.mp listed
    obtain ⟨stored, passes⟩ := List.mem_filter.mp among
    have equal := List.inj_on_of_nodup_map distinct stored present same
    rw [equal] at passes
    exact fails passes

variable [ForeignStorage σ]

/-- An operation in between takes an element in front of the place to which a dump has come. -/
def skips (index slot : Nat) (data : List Datum) (moment : Moment σ) : Bool :=
  (moment.answer? index).isNone && data ∉ moment.session.passed index slot &&
    data ∈ (moment.session.after moment.operation).passed index slot

/-- An operation in between takes an element back behind that place. -/
def repeats (index slot : Nat) (data : List Datum) (moment : Moment σ) : Bool :=
  (moment.answer? index).isNone && data ∈ moment.session.passed index slot &&
    data ∉ (moment.session.after moment.operation).passed index slot

/-- A run from the step that sends the first message of a dump about the set in a slot, with some
operations behind it, the last of which is the step that sends the last message about it. -/
structure Listing (start : Session σ) (index slot : Nat) (operations : List (Operation σ)) :
    Prop where
  balanced : start.AllBalanced (.stepDump index :: operations)
  unended : .endDump index ∉ operations
  opens : ∃ entry, (start.turn index).headed? index = some (slot, entry)
  goes : ∀ moment ∈ (start.after (.stepDump index)).history operations,
    moment.session.listing? index = some slot
  ends : (start.run (.stepDump index :: operations)).listing? index = none

theorem Reachable.placed_distinct (reachable : session.Reachable Balanced) (slot : Nat) :
    ((session.placed slot).map (·.2)).Nodup := by
  cases there : session.table.get? slot with
  | none => simp [placed, Table.storage?, there]
  | some entry =>
      rw [placed_of_get there]
      exact (reachable.allListable slot entry there).2.distinct

/-- A step leaves all sets as they are, apart from references. -/
theorem step_keeps (session : Session σ) (index : Nat) :
    (∀ slot, (session.after (.stepDump index)).table.storage? slot =
      session.table.storage? slot) ∧
    SameLabels session.table (session.after (.stepDump index)).table := by
  cases here : session.dumps[index]? with
  | none =>
      have same : session.after (.stepDump index) = session := by simp only [after, here]
      rw [same]
      exact ⟨fun _ => rfl, .refl _⟩
  | some dump =>
      have same : (session.after (.stepDump index)).table =
          (dump.step session.table session.engine.settings.messageSize).1 :=
        congrArg Engine.table (step_after here).1
      rw [same]
      exact ⟨dump.storage_step _ _, .of_edits (dump.edits_step _ _ : Table.Edits .add _ _)⟩

theorem placed_step (session : Session σ) (index slot : Nat) :
    (session.after (.stepDump index)).placed slot = session.placed slot := by
  obtain ⟨stored, labels⟩ := session.step_keeps index
  rw [placed, placed, stored]
  cases session.table.storage? slot with
  | none => rfl
  | some storage => exact Table.elements_congr labels.name storage

theorem Sent.count_elements {found later : Dump} {entry : Entry σ} {page : Page} {next : Nat}
    (sent : session.Sent index dump found entry page next later)
    (there : session.table.get? found.slot = some entry)
    (reachable : session.Reachable Balanced)
    (present : (place, data) ∈ session.placed found.slot) :
    page.elements.count data = if found.place ≤ place ∧ place < next then 1 else 0 := by
  have distinct := reachable.placed_distinct found.slot
  rw [placed_of_get there] at distinct present
  rw [sent.elements, Dump.listedUpTo, Table.elementsFrom, List.filter_filter]
  rw [count_filter (fun place => decide (place < next) && decide (found.place ≤ place))
    distinct present]
  simp [and_comm]

theorem Reachable.mem_passed (reachable : session.Reachable Balanced)
    (here : session.dumps[index]? = some dump) (present : (place, data) ∈ session.placed slot) :
    data ∈ session.passed index slot ↔ place < dump.place := by
  have count := count_filter (fun place => decide (place < dump.place))
    (reachable.placed_distinct slot) present
  simp only [passed, here]
  rw [← List.count_pos_iff, count]
  split <;> simp_all

def listed (session : Session σ) (operations : List (Operation σ)) (index : Nat) :
    List (List Datum) :=
  (session.pages operations index).flatMap (·.elements)

/-- How often an element is still listed: once if the dump has not come to it, apart from what
other operations bring about. -/
def Accounts (session : Session σ) (index slot : Nat) (data : List Datum)
    (operations : List (Operation σ)) : Prop :=
  (session.listed operations index).count data +
      (session.history operations).countP (skips index slot data) +
        (if data ∈ session.passed index slot then 1 else 0) =
    1 + (session.history operations).countP (repeats index slot data)

theorem eq_nil_of_left (left : session.listing? index = none)
    (goes : ∀ moment ∈ session.history operations, moment.session.listing? index = some slot) :
    operations = [] := by
  cases operations with
  | nil => rfl
  | cons operation rest =>
      have still := goes { session, operation } List.mem_cons_self
      simp [left] at still

/-- What is listed from a step on. If the step does not leave the set, this depends on what is
listed after it. -/
theorem Sent.count_step {found later : Dump} {entry : Entry σ} {page : Page} {next : Nat}
    (sent : session.Sent index dump found entry page next later)
    (there : session.table.get? found.slot = some entry)
    (reachable : session.Reachable Balanced)
    (reachableAfter : (session.after (.stepDump index)).Reachable Balanced)
    (present : (place, data) ∈ session.placed found.slot)
    (goes : ∀ moment ∈ (session.after (.stepDump index)).history operations,
      moment.session.listing? index = some found.slot)
    (onwards : later = { found with cursor := some next } →
      (session.after (.stepDump index)).Accounts index found.slot data operations) :
    (session.listed (.stepDump index :: operations) index).count data +
        (session.history (.stepDump index :: operations)).countP (skips index found.slot data) +
          (if place < found.place then 1 else 0) =
      1 + (session.history (.stepDump index :: operations)).countP
        (repeats index found.slot data) := by
  have answered : (Moment.answer? { session, operation := .stepDump index } index).isNone =
      false := by
    obtain ⟨bytes, answer⟩ := sent.answer
    exact congrArg Option.isNone answer
  have listed : (session.listed (.stepDump index :: operations) index).count data =
      (if found.place ≤ place ∧ place < next then 1 else 0) +
        ((session.after (.stepDump index)).listed operations index).count data := by
    rw [Session.listed, pages_turn, sent.told, Option.toList_some, List.singleton_append,
      List.flatMap_cons, List.count_append, sent.count_elements there reachable present]
    rfl
  rw [listed, history, List.countP_cons_of_neg (by simp [skips, answered]),
    List.countP_cons_of_neg (by simp [repeats, answered])]
  -- Either the message ends in front of the place, and what comes later accounts for the element,
  -- or the place has been passed; the last message goes on to the end.
  obtain ⟨forward, rfl⟩ | ⟨whole, rfl⟩ := sent.goes
  · have stored : (place, data) ∈ (session.after (.stepDump index)).placed found.slot := by
      rwa [placed_step]
    have passed := reachableAfter.mem_passed sent.dumped stored
    change _ ↔ place < next at passed
    have account := onwards rfl
    rw [Accounts, if_congr passed rfl rfl] at account
    split_ifs at account ⊢ <;> omega
  · have left : (session.after (.stepDump index)).listing? index = none := by
      simp [listing?, sent.dumped, Dump.heldSlot?, Dump.leave]
    have inside (further : found.place ≤ place) : place < next := by
      refine whole (place, data) (List.mem_filter.mpr ⟨?_, decide_eq_true further⟩)
      rwa [← placed_of_get there]
    rw [eq_nil_of_left left goes]
    simp only [Session.listed, pages, history, List.filterMap_nil, List.flatMap_nil,
      List.count_nil, List.countP_nil]
    split_ifs <;> omega

/-- The accounts of an element that stays in a set hold for the rest of a listing. The induction
is on the operations: a step lists what it passes, and any other operation leaves the dump where
it is. -/
theorem Reachable.accounts (reachable : session.Reachable Balanced)
    (here : session.dumps[index]? = some dump) (going : dump.finished = false)
    (balanced : session.AllBalanced operations) (unended : .endDump index ∉ operations)
    (goes : ∀ moment ∈ session.history operations, moment.session.listing? index = some slot)
    (ends : (session.run operations).listing? index = none)
    (started : session.listing? index = some slot)
    (stays : ∀ moment ∈ session.history operations, data ∈ moment.session.elementsAt slot) :
    session.Accounts index slot data operations := by
  induction operations generalizing session dump with
  | nil => simp [Session.run, started] at ends
  | cons operation rest ih =>
      have reachableAfter := reachable.after operation balanced.head
      have goesRest : ∀ moment ∈ (session.after operation).history rest,
          moment.session.listing? index = some slot :=
        fun moment later => goes moment (List.mem_cons_of_mem _ later)
      have onwards {later : Dump} (dumped : (session.after operation).dumps[index]? = some later)
          (unfinished : later.finished = false)
          (still : (session.after operation).listing? index = some slot) :
          (session.after operation).Accounts index slot data rest :=
        ih reachableAfter dumped unfinished balanced.tail
          (fun later => unended (List.mem_cons_of_mem _ later)) goesRest ends still
          fun moment later => stays moment (List.mem_cons_of_mem _ later)
      obtain ⟨same, held, cursor, rfl⟩ := listing_eq_some_iff.mp started
      cases here.symm.trans held
      by_cases step : operation = .stepDump index
      · subst step
        obtain ⟨place, present⟩ : ∃ place, (place, data) ∈ session.placed dump.slot :=
          mem_elementsAt.mp (stays (session.turn index) List.mem_cons_self)
        obtain ⟨entry, page, next, later, there, sent⟩ := reachable.goes_on here cursor going
        rw [Accounts, if_congr (reachable.mem_passed here present) rfl rfl]
        refine sent.count_step there reachable reachableAfter present goesRest ?_
        rintro rfl
        exact onwards sent.dumped going (listing_eq_some_iff.mpr ⟨_, sent.dumped, rfl, rfl⟩)
      -- An operation in between lists nothing. It shows in the account only by taking the element
      -- across the place of the dump.
      · have notEnd : operation ≠ .endDump index := fun same => unended (same ▸ List.mem_cons_self)
        have kept := dump_after here step notEnd
        have account := onwards kept going (listing_eq_some_iff.mpr ⟨dump, kept, cursor, rfl⟩)
        have silent : Moment.answer? { session, operation } index = none :=
          Moment.answer_eq_none step
        rw [Accounts, Session.listed] at account ⊢
        rw [pages_other step, history, List.countP_cons, List.countP_cons]
        simp only [skips, repeats, silent]
        by_cases before : data ∈ session.passed index dump.slot <;>
          by_cases behind : data ∈ (session.after operation).passed index dump.slot <;>
            simp [before, behind] at account ⊢ <;> omega

theorem Reachable.opens (reachable : session.Reachable Balanced) {entry : Entry σ}
    (headed : (session.turn index).headed? index = some (slot, entry)) :
    ∃ dump found page next later, found.slot = slot ∧ found.place = 0 ∧
      session.table.get? found.slot = some entry ∧
      session.Sent index dump found entry page next later := by
  cases here : session.dumps[index]? with
  | none => simp [Session.turn, Moment.headed?, Moment.page?, Moment.answer?, here] at headed
  | some dump =>
      cases reachable.turn here with
      | spent finished answer => simp [Moment.headed?, Moment.page?, answer] at headed
      | gone mode idle vacant silent => simp [silent] at headed
      | ended found going idle sought answer silent => simp [silent] at headed
      | sent found other page next later sent =>
          obtain ⟨sameCursor, there, -⟩ := Dump.seek_ok sent.sought
          rw [sent.headed] at headed
          split at headed
          · rename_i idle
            cases headed
            have start : found.place = 0 := by
              rw [Dump.place, sameCursor, Option.isNone_iff_eq_none.mp idle]
              rfl
            exact ⟨dump, found, page, next, later, rfl, start, there, sent⟩
          · contradiction

/-- However other operations come between the messages about a set, an element that stays in the
set is listed once, and once more for every time that one of them takes it back behind the place to
which the dump has come, and once less for every time that one takes it in front of this place. -/
theorem Listing.count (listing : start.Listing index slot operations)
    (reachable : start.Reachable Balanced)
    (stays : ∀ moment ∈ start.history (.stepDump index :: operations),
      data ∈ moment.session.elementsAt slot) :
    (start.listed (.stepDump index :: operations) index).count data +
        (start.history (.stepDump index :: operations)).countP (skips index slot data) =
      1 + (start.history (.stepDump index :: operations)).countP (repeats index slot data) := by
  obtain ⟨entry, headed⟩ := listing.opens
  obtain ⟨dump, found, page, next, later, rfl, first, there, sent⟩ := reachable.opens headed
  have reachableAfter := reachable.after (.stepDump index) listing.balanced.head
  obtain ⟨place, present⟩ : ∃ place, (place, data) ∈ start.placed found.slot :=
    mem_elementsAt.mp (stays (start.turn index) List.mem_cons_self)
  have count := sent.count_step there reachable reachableAfter present listing.goes fun going => by
    subst going
    have sameDump := Dump.seek_eq sent.sought
    have unfinished : found.finished = false := by
      rw [sameDump]
      exact sent.going
    exact reachableAfter.accounts sent.dumped unfinished listing.balanced.tail listing.unended
      listing.goes listing.ends (listing_eq_some_iff.mpr ⟨_, sent.dumped, rfl, rfl⟩)
      fun moment later => stays moment (List.mem_cons_of_mem _ later)
  rwa [first, if_neg (Nat.not_lt_zero place), Nat.add_zero] at count

/-- An element that stays in a set, and that no operation takes across the place to which the dump
has come, is listed exactly once. -/
theorem Listing.count_of_steady (listing : start.Listing index slot operations)
    (reachable : start.Reachable Balanced)
    (stays : ∀ moment ∈ start.history (.stepDump index :: operations),
      data ∈ moment.session.elementsAt slot)
    (steady : ∀ moment ∈ start.history (.stepDump index :: operations),
      moment.answer? index = none →
      (data ∈ moment.session.passed index slot ↔
        data ∈ (moment.session.after moment.operation).passed index slot)) :
    (start.listed (.stepDump index :: operations) index).count data = 1 := by
  have account := listing.count reachable stays
  rwa [List.countP_eq_zero.mpr, List.countP_eq_zero.mpr] at account
  · intro moment present repeated
    simp only [repeats, Bool.and_eq_true, Option.isNone_iff_eq_none, decide_eq_true_eq]
      at repeated
    obtain ⟨⟨quiet, before⟩, behind⟩ := repeated
    exact behind ((steady moment present quiet).mp before)
  · intro moment present skipped
    simp only [skips, Bool.and_eq_true, Option.isNone_iff_eq_none, decide_eq_true_eq]
      at skipped
    obtain ⟨⟨quiet, before⟩, behind⟩ := skipped
    exact before ((steady moment present quiet).mpr behind)

/-- An operation that comes between the messages about a set is followed by another one. -/
theorem Listing.next (listing : start.Listing index slot operations)
    (reachable : start.Reachable Balanced) {moment : Moment σ}
    (present : moment ∈ start.history (.stepDump index :: operations))
    (quiet : moment.answer? index = none) :
    moment ∈ (start.after (.stepDump index)).history operations ∧
      moment.operation ≠ .stepDump index ∧ moment.operation ≠ .endDump index ∧
      ∃ next ∈ start.history (.stepDump index :: operations),
        next.session = moment.session.after moment.operation := by
  rcases List.mem_cons.mp present with rfl | later
  · obtain ⟨entry, headed⟩ := listing.opens
    obtain ⟨dump, found, page, next, last, -, -, -, sent⟩ := reachable.opens headed
    obtain ⟨bytes, answer⟩ := sent.answer
    exact absurd (answer.symm.trans quiet) (by simp)
  · have notEnd : moment.operation ≠ .endDump index := fun same =>
      listing.unended (same ▸ operation_mem later)
    obtain ⟨dump, here, cursor, same⟩ := listing_eq_some_iff.mp (listing.goes moment later)
    obtain ⟨session, operation⟩ := moment
    have step : operation ≠ .stepDump index := by
      rintro rfl
      simp [(step_after here).2.2] at quiet
    refine ⟨later, step, notEnd, ?_⟩
    -- It is not the last one, as the dump would still be in the middle of the set afterwards.
    obtain ⟨next, among, follows⟩ | last := next_or_last later
    · exact ⟨next, List.mem_cons_of_mem _ among, follows⟩
    · have still : (session.after operation).listing? index = some slot :=
        listing_eq_some_iff.mpr ⟨dump, dump_after here step notEnd, cursor, same⟩
      exact absurd (still.symm.trans (last ▸ listing.ends)) (by simp)

theorem Sent.elements_subset {found later : Dump} {entry : Entry σ} {page : Page} {next : Nat}
    (sent : session.Sent index dump found entry page next later)
    (there : session.table.get? found.slot = some entry) :
    page.elements ⊆ session.elementsAt found.slot := by
  rw [sent.elements, elementsAt, placed_of_get there]
  exact List.map_subset _
    (List.Subset.trans (List.filter_subset_self _) (List.filter_subset_self _))

/-- Every element that is listed is in the set at that moment. -/
theorem Listing.elements_subset (listing : start.Listing index slot operations)
    (reachable : start.Reachable Balanced) {moment : Moment σ}
    (present : moment ∈ start.history (.stepDump index :: operations)) {page : Page}
    (told : moment.page? index = some page) :
    page.elements ⊆ moment.session.elementsAt slot := by
  rcases List.mem_cons.mp present with rfl | later
  · obtain ⟨entry, headed⟩ := listing.opens
    obtain ⟨dump, found, other, next, last, rfl, -, there, sent⟩ := reachable.opens headed
    cases sent.told.symm.trans told
    exact sent.elements_subset there
  · obtain ⟨dump, here, started, rfl⟩ := listing_eq_some_iff.mp (listing.goes moment later)
    have reachableHere := reachable.moment listing.balanced present
    obtain ⟨session, operation⟩ := moment
    have step : operation = .stepDump index := by
      by_contra other
      have silent : Moment.page? { session, operation } index = none := Moment.page_eq_none other
      simp [silent] at told
    subst step
    cases reachableHere.turn here with
    | spent finished answer =>
        have quiet : Moment.answer? { session, operation := .stepDump index } index = _ := answer
        simp [Moment.page?, quiet] at told
    | gone mode idle => simp [idle] at started
    | ended found going idle => simp [idle] at started
    | sent found entry other next last sent =>
        obtain ⟨entry, other, next, last, there, sent⟩ :=
          reachableHere.goes_on here started sent.going
        cases sent.told.symm.trans told
        exact sent.elements_subset there

end NamedSets.Session
