import Cascade.Proofs.Page.Layers
/-!
The algebra of configurations. Layers may be laid over one another in any grouping, and it does not
matter whether a directory below gets what its parent has before or after a layer is laid over it.
-/

namespace Cascade.PageConfig

variable (a b c : PageConfig)

theorem merge_assoc : (a.merge b).merge c = a.merge (b.merge c) := by
  simp only [merge, Table.union_assoc, List.append_assoc]

@[simp] theorem merge_default : a.merge {} = a := by
  simp only [merge, List.append_nil, Table.union_empty]

/-- A layer over nothing is the layer, and whose home page it is is not said by it. -/
theorem default_merge : merge {} b = b.child := by
  simp only [merge, List.nil_append, Table.empty_union, child]

/-- Layers laid over one another first make one layer. -/
theorem foldl_merge (layers : List PageConfig) :
    layers.foldl merge a = a.merge (layers.foldl merge {}) := by
  induction layers generalizing a with
  | nil => exact (merge_default a).symm
  | cons b layers ih =>
    rw [List.foldl_cons, List.foldl_cons, ih (a.merge b), ih (merge {} b), default_merge, merge_assoc]
    rfl

/-- Layers act on a configuration, in any grouping: names have the value of the upper layer, or else that
from below; lists of the upper layer come behind; whose home page it is comes from below. A directory
below starts with the same whether its parent gets the layer before or after. -/
theorem merge_layers :
    (a.merge b).merge c = a.merge (b.merge c) ∧ a.merge {} = a ∧
    (∀ layers : List PageConfig, layers.foldl merge a = a.merge (layers.foldl merge {})) ∧
    (a.merge b).isHome = a.isHome ∧
    (∀ key, (a.merge b).opts.get? key = (b.opts.get? key).or (a.opts.get? key) ∧
      (a.merge b).vars.get? key = (b.vars.get? key).or (a.vars.get? key) ∧
      (a.merge b).metadata.get? key = (b.metadata.get? key).or (a.metadata.get? key) ∧
      (a.merge b).blocks.get? key = (b.blocks.get? key).or (a.blocks.get? key)) ∧
    (a.merge b).styles = a.styles ++ b.styles ∧ (a.merge b).scripts = a.scripts ++ b.scripts ∧
    (a.merge b).child = a.child.merge b := by
  refine ⟨merge_assoc a b c, merge_default a, foldl_merge a, rfl, fun key => ?_, rfl, rfl, rfl⟩
  exact ⟨Table.get?_union .., Table.get?_union .., Table.get?_union .., Table.get?_union ..⟩

end Cascade.PageConfig
