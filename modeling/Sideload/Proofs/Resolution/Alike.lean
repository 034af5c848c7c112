import Sideload.Proofs.Include.PathOrder
import Sideload.Proofs.Resolution.Loadable

/-! # Resolving forests that are alike

Two forests that are alike ask for the same: below each entity the same relations are loaded, in
another order. So both can be resolved or none (`Loadable.of_alike`); and an entity that is met with
one forest is met with the other, where the same columns are kept of it and the forests below are
alike again (`Met.of_alike`). -/

namespace Sideload

section Alike
variable {registry : Registry} {load : Pointer → String → Except LoadError (List Entity)}

theorem Loadable.of_alike {forest : Include.Forest} {p : Pointer}
    (h : Loadable registry load forest p) : ∀ {forest' : Include.Forest}, forest.Alike forest' →
      forest.Distinct → forest'.Distinct → Loadable registry load forest' p := by
  induction h with
  | @intro forest p loaded _ ih =>
    intro forest' halike hforest hforest'
    obtain ⟨hdistinct, hbelow⟩ := hforest
    obtain ⟨hdistinct', hbelow'⟩ := hforest'
    have hnode : ∀ n' ∈ forest', ∃ n ∈ forest, n.relation = n'.relation ∧
        n.children.Alike n'.children := by
      intro n' hn'
      obtain ⟨n, hn, hrelation, -, hchildren⟩ :=
        halike.symm.exists_of_mem hdistinct' hdistinct hn'
      exact ⟨n, hn, hrelation, hchildren.symm⟩
    refine .intro (fun n' hn' hsome => ?_) (fun n' hn' hsome values hload v hv => ?_)
    · obtain ⟨n, hn, hrelation, -⟩ := hnode n' hn'
      rw [← hrelation] at hsome ⊢
      exact loaded n hn hsome
    · obtain ⟨n, hn, hrelation, hchildren⟩ := hnode n' hn'
      rw [← hrelation] at hsome hload
      exact ih n hn hsome values hload v hv hchildren (hbelow n hn) (hbelow' n' hn')

/-- **Who is met with one forest is met with the other**, with the same columns above a forest that
is alike. -/
theorem Met.of_alike {roots : List Entity} {forest forest' : Include.Forest}
    (halike : forest.Alike forest') (hforest : forest.Distinct) (hforest' : forest'.Distinct)
    {e : Entity} {columns : List String} {below : Include.Forest}
    (h : Met registry load roots forest e columns below) :
    ∃ columns' below', Met registry load roots forest' e columns' below' ∧
      (∀ c, c ∈ columns ↔ c ∈ columns') ∧
      below.Alike below' ∧ below.Distinct ∧ below'.Distinct := by
  induction h with
  | root he => exact ⟨[], forest', .root he, fun _ => Iff.rfl, halike, hforest, hforest'⟩
  | linked _ hn hrelation hload hv ih =>
    obtain ⟨columns', below', hmet', -, hsame, ⟨hdistinct, hbelow⟩, ⟨hdistinct', hbelow'⟩⟩ := ih
    obtain ⟨n', hn', hname, hcolumns, hchildren⟩ := hsame.exists_of_mem hdistinct hdistinct' hn
    rw [← hname] at hrelation hload
    exact ⟨n'.columns, n'.children, .linked hmet' hn' hrelation hload hv, hcolumns, hchildren,
      hbelow _ hn, hbelow' n' hn'⟩

/-- What is said of the places where entities are met can be said with the other forest, if it
depends neither on the order of columns nor on that of the forest below. -/
theorem exists_met_iff {roots : List Entity} {forest forest' : Include.Forest}
    (halike : forest.Alike forest') (hforest : forest.Distinct) (hforest' : forest'.Distinct)
    {Q : Entity → List String → Include.Forest → Prop}
    (hQ : ∀ {e columns columns' below below'}, (∀ c, c ∈ columns ↔ c ∈ columns') →
      below.Alike below' → Q e columns below → Q e columns' below') :
    (∃ e columns below, Met registry load roots forest e columns below ∧ Q e columns below) ↔
      ∃ e columns below, Met registry load roots forest' e columns below ∧ Q e columns below := by
  have hone : ∀ {forest forest' : Include.Forest}, forest.Alike forest' → forest.Distinct →
      forest'.Distinct →
      (∃ e columns below, Met registry load roots forest e columns below ∧ Q e columns below) →
      ∃ e columns below, Met registry load roots forest' e columns below ∧ Q e columns below := by
    rintro forest forest' halike hforest hforest' ⟨e, columns, below, hmet, h⟩
    obtain ⟨columns', below', hmet', hcolumns, hbelow, -⟩ := hmet.of_alike halike hforest hforest'
    exact ⟨e, columns', below', hmet', hQ hcolumns hbelow h⟩
  exact ⟨hone halike hforest hforest', hone halike.symm hforest' hforest⟩

end Alike

end Sideload
