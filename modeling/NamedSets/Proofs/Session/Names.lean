import NamedSets.Proofs.Session.Soundness
import NamedSets.Proofs.Table.Map

namespace NamedSets.Session

variable {σ : Type} [ForeignStorage σ] {session : Session σ}

theorem Reachable.namesDistinct {rule : Session σ → Operation σ → Prop}
    (reachable : session.Reachable rule) : session.table.NamesDistinct := by
  refine Reachable.induction (fun session => session.table.NamesDistinct) ?_ ?_ reachable
  · intro settings loader
    exact .empty settings.capacity
  · intro session operation distinct _
    exact (session.after_reform operation).namesDistinct distinct

/-- In every session the table acts as a map from names, and operations other than those on
whole sets leave every name with its slot, its type and its family. -/
theorem table_acts_as_map (reachable : session.Reachable Unrestricted) :
    session.table.ActsAsMap ∧
      ∀ operation, session.table.Reform (session.after operation).table :=
  ⟨reachable.namesDistinct.actsAsMap, session.after_reform⟩

theorem table_acts_as_map_shared :
    shared.Reachable Unrestricted ∧ shared.table.ActsAsMap ∧
      ∀ operation, shared.table.Reform (shared.after operation).table := by
  have reachable : shared.Reachable Unrestricted :=
    shared_reachable.mono fun _ _ _ => trivial
  exact ⟨reachable, table_acts_as_map reachable⟩

end NamedSets.Session
