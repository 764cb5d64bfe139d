import FormFlow.Proofs.Path.Distinct
import FormFlow.Proofs.Plan.Addresses

/-!
# Telling slots apart

If no node is shadowed, no path of a node goes on by an id where another goes on by `*`
(`not_forks_path`). So if moreover no id has a full stop or is read as an index, the text of a slot
tells the node and the slot (`slot_inj`).
-/

namespace FormFlow.Plan

variable {plan : Plan} {sections : List Form.Node} {node other : Node} {document : Document}
  {place place' : Location}

/-- No path goes on by an id where another goes on by `*`. -/
theorem not_forks_path (h : nodesOf sections = .ok plan.nodes)
    (hfree : ∀ node ∈ plan.nodes, ¬ plan.IsShadowed node) (hnode : node ∈ plan.nodes)
    (hother : other ∈ plan.nodes) : ¬ node.path.Forks other.path := by
  rintro ⟨part, name, hkey, heach⟩
  obtain ⟨array, harray, hpath⟩ := (passes_path h hother).each part heach
  rcases (passes_path h hnode).key part name hkey with rfl | ⟨above, habove, rfl⟩
  · obtain ⟨_, _, hrooted⟩ := isRooted_of_nodesOf h harray
    simp [hpath, Pattern.withEach] at hrooted
  · exact hfree array harray ⟨above, habove, hpath.symm⟩

theorem eq_of_withoutEach_path_eq (h : nodesOf sections = .ok plan.nodes)
    (hfree : ∀ node ∈ plan.nodes, ¬ plan.IsShadowed node) (hnode : node ∈ plan.nodes)
    (hother : other ∈ plan.nodes) (hpath : node.path.withoutEach = other.path.withoutEach) :
    node = other := by
  have hunique := List.inj_on_of_nodup_map (nodup_paths h)
  rcases node.path.eq_withoutEach_or with hstem | hstem
  · rcases other.path.eq_withoutEach_or with hstem' | hstem'
    · exact hunique hnode hother (hstem.trans (hpath.trans hstem'.symm))
    · exact absurd ⟨node, hnode, by rw [hstem, hpath, ← hstem']⟩ (hfree other hother)
  · rcases other.path.eq_withoutEach_or with hstem' | hstem'
    · exact absurd ⟨other, hother, by rw [hstem', ← hpath, ← hstem]⟩ (hfree node hnode)
    · exact hunique hnode hother (hstem.trans (hpath ▸ hstem'.symm))

section

variable (h : nodesOf sections = .ok plan.nodes)
  (hids : ∀ node ∈ plan.nodes, Text.readIndex node.id.toList = none)

include h hids

theorem shape_slot (hnode : node ∈ plan.nodes) (hplace : place ∈ node.path.slots document) :
    place.shape = node.path.withoutEach :=
  Pattern.shape_of_mem_slots (isPlain_path h hids hnode) hplace

theorem slot_ne_nil (hnode : node ∈ plan.nodes) (hplace : place ∈ node.path.slots document) :
    place ≠ [] := by
  rintro rfl
  obtain ⟨above, -, hpath⟩ := exists_plain_place h hids hnode
  have hshape := shape_slot h hids hnode hplace
  simp [hpath, Place.withoutEach_pathOf, Location.shape] at hshape

theorem stop_not_mem_slot (hstops : ∀ node ∈ plan.nodes, '.' ∉ node.id.toList)
    (hnode : node ∈ plan.nodes) (hplace : place ∈ node.path.slots document) :
    ∀ step ∈ place, '.' ∉ step.name.toList := by
  intro step hstep
  cases step with
  | index position =>
    simpa [Step.name, Text.Natural.print] using Text.Natural.stop_not_mem_digits position
  | field name =>
    have hkey : Token.key name ∈ place.shape := List.mem_map.mpr ⟨_, hstep, rfl⟩
    rw [shape_slot h hids hnode hplace] at hkey
    obtain ⟨named, hnamed, rfl⟩ :=
      exists_id_of_mem_path h hnode (node.path.withoutEach_part.subset hkey)
    exact hstops named hnamed

theorem slot_inj (hstops : ∀ node ∈ plan.nodes, '.' ∉ node.id.toList)
    (hfree : ∀ node ∈ plan.nodes, ¬ plan.IsShadowed node) (hnode : node ∈ plan.nodes)
    (hother : other ∈ plan.nodes) (hplace : place ∈ node.path.slots document)
    (hplace' : place' ∈ other.path.slots document) (hprint : place.print = place'.print) :
    node = other ∧ place = place' := by
  have hshape := shape_slot h hids hnode hplace
  have hshape' := shape_slot h hids hother hplace'
  have hnames := Location.map_name_of_print_eq (slot_ne_nil h hids hnode hplace)
    (slot_ne_nil h hids hother hplace') (stop_not_mem_slot h hids hstops hnode hplace)
    (stop_not_mem_slot h hids hstops hother hplace') hprint
  have hfork : ¬ place.shape.Forks place'.shape := fun hfork =>
    not_forks_path h hfree hnode hother (hfork.of_part
      (hshape ▸ node.path.withoutEach_part) (hshape' ▸ other.path.withoutEach_part))
  have hfork' : ¬ place'.shape.Forks place.shape := fun hfork =>
    not_forks_path h hfree hother hnode (hfork.of_part
      (hshape' ▸ other.path.withoutEach_part) (hshape ▸ node.path.withoutEach_part))
  obtain rfl := Location.eq_of_map_name_eq hnames hfork hfork'
  exact ⟨eq_of_withoutEach_path_eq h hfree hnode hother (hshape.symm.trans hshape'), rfl⟩

end

end FormFlow.Plan
