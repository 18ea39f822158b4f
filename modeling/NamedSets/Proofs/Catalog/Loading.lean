import NamedSets.Proofs.Catalog.Unambiguous

namespace NamedSets

theorem Loader.record_asked (loader : Loader) (names : List String) :
    (names.foldl Loader.ask loader).record = loader.record.map (names.reverse ++ ·) := by
  induction names generalizing loader with
  | nil => cases record : loader.record <;> simp [record]
  | cons name rest ih =>
      rw [List.foldl_cons, ih, ask, Option.map_map]
      congr 1
      funext asked
      simp

namespace Catalog

variable {σ : Type} {catalog : Catalog σ}

/-- The loader is asked once, and only for what is not found without it. -/
theorem lookupOrLoad_loader (catalog : Catalog σ) (name : String) (family : Family)
    (revision : UInt8) : (catalog.lookupOrLoad name family revision).1.loader =
      if (catalog.lookup name family revision).isSome then catalog.loader
      else catalog.loader.ask name := by
  unfold lookupOrLoad
  cases catalog.lookup name family revision with
  | some type => rfl
  | none => exact catalog.load_loader name

theorem revisionRangeOrLoad_loader (catalog : Catalog σ) (name : String) (family : Family) :
    (catalog.revisionRangeOrLoad name family).1.loader =
      if (catalog.revisionRange name family).isSome then catalog.loader
      else catalog.loader.ask name := by
  unfold revisionRangeOrLoad
  cases catalog.revisionRange name family with
  | some range => rfl
  | none => exact catalog.load_loader name

/-- The names that the loader is asked for by an action: that of a look-up which finds nothing. -/
def asks (catalog : Catalog σ) : Action σ → List String
  | .register _ => []
  | .unregister _ _ _ => []
  | .find name family revision =>
      if (catalog.lookup name family revision).isSome then [] else [name]
  | .findRevisions name family =>
      if (catalog.revisionRange name family).isSome then [] else [name]

def asksAll (catalog : Catalog σ) : List (Action σ) → List String
  | [] => []
  | action :: rest => catalog.asks action ++ (catalog.after action).asksAll rest

theorem after_loader (catalog : Catalog σ) (action : Action σ) :
    (catalog.after action).loader = (catalog.asks action).foldl Loader.ask catalog.loader := by
  cases action with
  | register type =>
      rw [after]
      cases accepted : catalog.register type with
      | ok registered => exact register_loader accepted
      | error fault => rfl
  | unregister name family revision =>
      rw [after]
      cases removed : catalog.unregister name family revision with
      | ok left => exact unregister_loader removed
      | error fault => rfl
  | find name family revision =>
      rw [after, lookupOrLoad_loader, asks]
      split <;> rfl
  | findRevisions name family =>
      rw [after, revisionRangeOrLoad_loader, asks]
      split <;> rfl

theorem run_loader (catalog : Catalog σ) (actions : List (Action σ)) :
    (actions.foldl after catalog).loader =
      (catalog.asksAll actions).foldl Loader.ask catalog.loader := by
  induction actions generalizing catalog with
  | nil => rfl
  | cons action rest ih => rw [List.foldl_cons, ih, after_loader, asksAll, List.foldl_append]

/-- A loader with an empty record has in the end recorded one name for every look-up that found
nothing, in order. -/
theorem takeAsked_run (actions : List (Action σ)) (empty : catalog.loader.record = some []) :
    (actions.foldl after catalog).takeAsked.2 = catalog.asksAll actions := by
  rw [takeAsked, run_loader, Loader.record_asked, empty, Option.map_some, Option.getD_some,
    List.append_nil, List.reverse_reverse]

/-- A type is asked for again after it was unregistered, and not while it is there. -/
example :
    let search : Action Empty := .find "hash:ip" .ipv4 0
    let catalog : Catalog Empty := { types := [], loader := .noting [] }
    catalog.asksAll [search, search, .findRevisions "bitmap:ip" .ipv4,
      .unregister "hash:ip" .unspecified 0, search] = ["hash:ip", "bitmap:ip", "hash:ip"] := by
  decide +kernel

end Catalog

end NamedSets
