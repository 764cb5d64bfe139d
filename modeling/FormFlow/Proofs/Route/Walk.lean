import FormFlow.Proofs.Route.Judged

/-!
# The walk along a route

A walk goes on from a vertex by the one edge that a valid section has and by the chosen edge of a
decision, and ends at `END` or at a section that is not valid. If a single edge leaves `START` and
the vertex before `START` is no section that fails, the active edges are that edge and the edges
walked from its target, in this order (`activeForward_judge`).

The judge never walks. While it goes through the edges, the ones it has found active end at a vertex
whose edges are still to come, the head of the walk (`Sweep.AtHead`): what else was entered is
spent, because a section has one edge and a decision one for each output. An edge to come keeps this
state (`AtHead.skip`) or moves the head on (`AtHead.move`), until a section that is not valid puts
all that follows beyond the frontier.
-/

namespace FormFlow.Route

/-- The edges that a walk from a vertex follows. -/
inductive Walks (kinds : Members VertexKind) (edges : List Edge) (judgement : Judgement) :
    String → List Edge → Prop
  | finish : Walks kinds edges judgement endId []
  | halt {id : String} (hkind : Members.get? id kinds = some .sectionVertex)
      (hinvalid : judgement.valid id = false) : Walks kinds edges judgement id []
  | onward {edge : Edge} {rest : List Edge} (hedge : edge ∈ edges)
      (hkind : Members.get? edge.source kinds = some .sectionVertex)
      (hvalid : judgement.valid edge.source = true)
      (hrest : Walks kinds edges judgement edge.target rest) :
      Walks kinds edges judgement edge.source (edge :: rest)
  | branch {edge : Edge} {rest : List Edge} (hedge : edge ∈ edges)
      (hkind : Members.get? edge.source kinds = some .decision)
      (hchosen : edge.condition = some (judgement.output edge.source))
      (hrest : Walks kinds edges judgement edge.target rest) :
      Walks kinds edges judgement edge.source (edge :: rest)

variable {kinds : Members VertexKind} {edges : List Edge} {judgement : Judgement}

/-- The active edges, the one into `START` left aside. -/
def activeForward (judged : List JudgedEdge) : List Edge :=
  (activeEdges judged).filter (·.target ≠ startId)

/-! ### A vertex has one walk at most -/

theorem Walks.edge_of_cons {id : String} {edge : Edge} {rest : List Edge}
    (hwalk : Walks kinds edges judgement id (edge :: rest)) (h : Sound kinds edges) :
    edge ∈ edges.filter judgement.chooses ∧ edge.source = id ∧ id ≠ startId ∧
      Walks kinds edges judgement edge.target rest := by
  cases hwalk with
  | onward hedge hkind hvalid hrest =>
    have hkindOf := h.sourceKind_eq hedge hkind
    refine ⟨List.mem_filter.mpr ⟨hedge, ?_⟩, rfl, ?_, hrest⟩
    · rw [Judgement.chooses, hkindOf]
      exact hvalid
    · intro hstart
      rw [(h.startKind _).mpr hstart] at hkind
      simp at hkind
  | branch hedge hkind hchosen hrest =>
    have hkindOf := h.sourceKind_eq hedge hkind
    refine ⟨List.mem_filter.mpr ⟨hedge, ?_⟩, rfl, ?_, hrest⟩
    · rw [Judgement.chooses, hkindOf]
      simpa using hchosen
    · intro hstart
      rw [(h.startKind _).mpr hstart] at hkind
      simp at hkind

theorem eq_of_length_le_one {items : List Edge} {first second : Edge} (h : items.length ≤ 1)
    (hfirst : first ∈ items) (hsecond : second ∈ items) : first = second := by
  match items, h with
  | [only], _ =>
    rw [List.mem_singleton] at hfirst hsecond
    exact hfirst.trans hsecond.symm

theorem Sound.eq_of_chosen (h : Sound kinds edges) {edge other : Edge}
    (hedge : edge ∈ edges.filter judgement.chooses)
    (hother : other ∈ edges.filter judgement.chooses) (hsource : edge.source = other.source)
    (hstart : edge.source ≠ startId) : edge = other :=
  eq_of_length_le_one (h.length_chosen_le_one judgement hstart)
    (List.mem_filter.mpr ⟨hedge, by simp⟩) (List.mem_filter.mpr ⟨hother, by simp [hsource]⟩)

theorem Walks.not_of_nil {id : String} {edge : Edge} {rest : List Edge}
    (hnil : Walks kinds edges judgement id [])
    (hcons : Walks kinds edges judgement id (edge :: rest)) (h : Sound kinds edges) : False := by
  obtain ⟨hmem, hsource, _, _⟩ := hcons.edge_of_cons h
  rw [List.mem_filter] at hmem
  obtain ⟨hmem, hchooses⟩ := hmem
  cases hnil with
  | finish => exact h.source_ne_end edge hmem hsource
  | halt hkind hinvalid =>
    rw [← hsource] at hkind hinvalid
    rw [Judgement.chooses, h.sourceKind_eq hmem hkind, hinvalid] at hchooses
    exact absurd hchooses (by simp)

theorem Walks.unique (h : Sound kinds edges) {id : String} {walked other : List Edge}
    (hwalked : Walks kinds edges judgement id walked)
    (hother : Walks kinds edges judgement id other) : walked = other := by
  induction walked generalizing id other with
  | nil =>
    cases other with
    | nil => rfl
    | cons edge rest => exact (hwalked.not_of_nil hother h).elim
  | cons edge rest ih =>
    cases other with
    | nil => exact (hother.not_of_nil hwalked h).elim
    | cons edge' rest' =>
      obtain ⟨hmem, hsource, hstart, hrest⟩ := hwalked.edge_of_cons h
      obtain ⟨hmem', hsource', _, hrest'⟩ := hother.edge_of_cons h
      obtain rfl := h.eq_of_chosen hmem hmem' (hsource.trans hsource'.symm)
        (by rw [hsource]; exact hstart)
      rw [ih hrest hrest']

theorem Walks.step (h : Sound kinds edges) {edge : Edge} {rest : List Edge} (hmem : edge ∈ edges)
    (hsource : edge.source ≠ startId) (hchosen : judgement.chooses edge = true)
    (hrest : Walks kinds edges judgement edge.target rest) :
    Walks kinds edges judgement edge.source (edge :: rest) := by
  have hkind := h.sourceKind edge hmem
  unfold Judgement.chooses at hchosen
  cases hkindOf : edge.sourceKind with
  | start => exact absurd ((h.startKind _).mp (hkindOf ▸ hkind)) hsource
  | finish => simp [hkindOf] at hchosen
  | sectionVertex =>
    rw [hkindOf] at hchosen hkind
    exact .onward hmem hkind hchosen hrest
  | decision =>
    rw [hkindOf] at hchosen hkind
    exact .branch hmem hkind (by simpa using hchosen) hrest

/-! ### What is still to come -/

theorem Sound.mem_rest (h : Sound kinds edges) {passed rest : List Edge} {edge next : Edge}
    (hsplit : edges = passed ++ edge :: rest) (hnext : next ∈ edges)
    (hsource : next.source = edge.target) : next ∈ rest := by
  have hforward := h.forward
  rw [hsplit, List.pairwise_append] at hforward
  rw [hsplit, List.mem_append, List.mem_cons] at hnext
  rcases hnext with hpassed | rfl | hrest
  · exact absurd hsource.symm (hforward.2.2 next hpassed edge List.mem_cons_self)
  · exact absurd hsource.symm (h.noLoop next (by simp [hsplit]))
  · exact hrest

theorem Sound.exists_onward (h : Sound kinds edges) (judgement : Judgement) {id : String}
    {kind : VertexKind} (hkind : Members.get? id kinds = some kind) (hend : id ≠ endId) :
    ∃ edge ∈ edges, edge.source = id ∧
      (edge.sourceKind = .decision → judgement.chooses edge = true) := by
  cases kind with
  | start =>
    obtain ⟨edge, hedge, hsource⟩ := h.started
    obtain rfl := (h.startKind id).mp hkind
    refine ⟨edge, hedge, hsource, fun hdecision => ?_⟩
    rw [← hsource] at hkind
    simp [h.sourceKind_eq hedge hkind] at hdecision
  | finish => exact absurd ((h.finishKind id).mp hkind) hend
  | sectionVertex =>
    obtain ⟨edge, honly⟩ := h.section_edge id hkind
    obtain ⟨hedge, rfl⟩ : edge ∈ edges ∧ edge.source = id := by
      simpa using (mem_filter_singleton honly).mpr rfl
    refine ⟨edge, hedge, rfl, fun hdecision => ?_⟩
    simp [h.sourceKind_eq hedge hkind] at hdecision
  | decision =>
    obtain ⟨edge, honly⟩ := h.decision_edge id hkind (judgement.output id)
    obtain ⟨⟨hedge, rfl⟩, hcondition⟩ : (edge ∈ edges ∧ edge.source = id) ∧
        edge.condition = some (judgement.output id) := by
      simpa [List.mem_filter] using (mem_filter_singleton honly).mpr rfl
    refine ⟨edge, hedge, rfl, fun hdecision => ?_⟩
    rw [Judgement.chooses, hdecision, hcondition]
    simp

/-- What an edge leads to is `END` or is left by an edge still to come, a decision by the one it
chooses. -/
theorem Sound.exists_due (h : Sound kinds edges) (judgement : Judgement) {passed rest : List Edge}
    {edge : Edge} (hsplit : edges = passed ++ edge :: rest) :
    edge.target = endId ∨ ∃ next ∈ rest, next.source = edge.target ∧
      (next.sourceKind = .decision → judgement.chooses next = true) := by
  by_cases hend : edge.target = endId
  · exact Or.inl hend
  · obtain ⟨next, hnext, hsource, hchosen⟩ :=
      h.exists_onward judgement (h.targetKind edge (by simp [hsplit])) hend
    exact Or.inr ⟨next, h.mem_rest hsplit hnext hsource, hsource, hchosen⟩

theorem Sound.other_not_chosen (h : Sound kinds edges) {passed rest : List Edge}
    {edge other : Edge} (hsplit : edges = passed ++ edge :: rest)
    (hchosen : judgement.chooses edge = true) (hstart : edge.source ≠ startId)
    (hother : other ∈ rest) (hsource : other.source = edge.source) :
    other.sourceKind = .decision ∧ judgement.chooses other = false := by
  have hmem : edge ∈ edges := by simp [hsplit]
  have hmem' : other ∈ edges := by simp [hsplit, hother]
  have hpair : [edge, other].Sublist (edges.filter (·.source = edge.source)) := by
    rw [hsplit, List.filter_append, List.filter_cons_of_pos (by simp)]
    refine (List.Sublist.cons_cons _ ?_).trans (List.sublist_append_right _ _)
    exact List.singleton_sublist.mpr (List.mem_filter.mpr ⟨hother, by simp [hsource]⟩)
  have hkind := h.sourceKind other hmem'
  cases hkindOf : other.sourceKind with
  | start => exact absurd ((h.startKind _).mp (hkindOf ▸ hkind)) (hsource ▸ hstart)
  | finish => exact absurd ((h.finishKind _).mp (hkindOf ▸ hkind)) (h.source_ne_end _ hmem')
  | sectionVertex =>
    rw [hsource, hkindOf] at hkind
    obtain ⟨only, honly⟩ := h.section_edge _ hkind
    rw [honly] at hpair
    simpa using hpair.length_le
  | decision =>
    refine ⟨rfl, ?_⟩
    by_contra hchooses
    rw [Bool.not_eq_false] at hchooses
    have hpair' := (hpair.filter judgement.chooses).length_le
    rw [List.filter_comm] at hpair'
    have hone := h.length_chosen_le_one judgement hstart
    simp only [List.filter_cons_of_pos hchosen, List.filter_cons_of_pos hchooses,
      List.filter_nil, List.length_cons, List.length_nil] at hpair'
    omega

/-! ### The head of the walk -/

theorem activeForward_next (sweep : Sweep) (edge : Edge) :
    activeForward (sweep.next judgement edge).judged = activeForward sweep.judged ++
      if (sweep.enters edge && sweep.leadsOn judgement edge) && edge.target ≠ startId
      then [edge] else [] := by
  rw [activeForward, Sweep.activeEdges_next, List.filter_append, ← activeForward]
  congr 1
  by_cases hactive : (sweep.enters edge && sweep.leadsOn judgement edge) = true
  · by_cases htarget : edge.target = startId <;> simp [hactive, htarget]
  · simp [hactive]

namespace Sweep

/-- The active edges end at `head`, which is left by an edge of `ahead` unless it is `END`. What
else was entered has only edges to come that are not chosen. -/
structure AtHead (judgement : Judgement) (edges : List Edge) (sweep : Sweep) (head : String)
    (ahead : List Edge) : Prop where
  taken : ∀ edge ∈ activeForward sweep.judged, edge ∈ edges
  entered : ∃ edge ∈ activeForward sweep.judged, edge.target = head
  clear : sweep.beyondFrontier = false
  spent : ∀ earlier ∈ activeForward sweep.judged, earlier.target ≠ head →
    ∀ edge ∈ ahead, edge.source = earlier.target →
      edge.sourceKind = .decision ∧ judgement.chooses edge = false
  due : head = endId ∨ ∃ edge ∈ ahead, edge.source = head ∧
    (edge.sourceKind = .decision → judgement.chooses edge = true)

variable {sweep : Sweep} {head : String} {edge : Edge} {rest : List Edge}

/-- An edge that is not active, not left by the frontier and not the one due changes nothing. -/
theorem AtHead.skip (hhead : AtHead judgement edges sweep head (edge :: rest))
    (hsame : activeForward (sweep.next judgement edge).judged = activeForward sweep.judged)
    (hfrontier : sweep.isFrontier judgement edge = false)
    (hnotDue : edge.source = head →
      edge.sourceKind = .decision ∧ judgement.chooses edge = false) :
    AtHead judgement edges (sweep.next judgement edge) head rest := by
  refine ⟨?_, ?_, ?_, ?_, ?_⟩
  · rw [hsame]
    exact hhead.taken
  · rw [hsame]
    exact hhead.entered
  · simp [next, hhead.clear, hfrontier]
  · rw [hsame]
    intro earlier hearlier hne other hother
    exact hhead.spent earlier hearlier hne other (List.mem_cons_of_mem _ hother)
  · refine hhead.due.imp_right ?_
    rintro ⟨other, hother, hsource, hchosen⟩
    rcases List.mem_cons.mp hother with rfl | hrest
    · obtain ⟨hdecision, hnot⟩ := hnotDue hsource
      simp [hchosen hdecision] at hnot
    · exact ⟨other, hrest, hsource, hchosen⟩

theorem AtHead.mem_activeEdges (hhead : AtHead judgement edges sweep head (edge :: rest)) :
    ∃ earlier ∈ activeEdges sweep.judged, earlier.target = head ∧ head ≠ startId := by
  obtain ⟨earlier, hearlier, rfl⟩ := hhead.entered
  rw [activeForward, List.mem_filter] at hearlier
  exact ⟨earlier, hearlier.1, rfl, by simpa using hearlier.2⟩

theorem AtHead.skip_into_start (h : Sound kinds edges) (hmem : edge ∈ edges)
    (htarget : edge.target = startId)
    (hvalid : edge.sourceKind = .sectionVertex → judgement.valid edge.source = true)
    (hhead : AtHead judgement edges sweep head (edge :: rest)) :
    activeForward (sweep.next judgement edge).judged = activeForward sweep.judged ∧
      AtHead judgement edges (sweep.next judgement edge) head rest := by
  have hsame : activeForward (sweep.next judgement edge).judged = activeForward sweep.judged := by
    rw [activeForward_next]
    simp [htarget]
  refine ⟨hsame, hhead.skip hsame ?_ fun hdue => ?_⟩
  · unfold isFrontier
    by_cases hsection : edge.sourceKind = .sectionVertex
    · simp [hvalid hsection]
    · simp [hsection]
  · obtain ⟨other, hother, hotherTarget⟩ := hhead.entered
    exact absurd (hotherTarget.trans hdue.symm)
      (h.beforeStart edge hmem htarget other (hhead.taken other hother))

theorem AtHead.skip_unchosen (hhead : AtHead judgement edges sweep head (edge :: rest))
    (hdecision : edge.sourceKind = .decision) (hnot : judgement.chooses edge = false) :
    activeForward (sweep.next judgement edge).judged = activeForward sweep.judged ∧
      AtHead judgement edges (sweep.next judgement edge) head rest := by
  have hsame : activeForward (sweep.next judgement edge).judged = activeForward sweep.judged := by
    rw [activeForward_next, leadsOn_eq_chooses hhead.clear, hnot]
    simp
  exact ⟨hsame, hhead.skip hsame (by simp [isFrontier, hdecision]) fun _ => ⟨hdecision, hnot⟩⟩

/-- An edge that leaves another vertex than the head changes nothing: what was entered before is
spent. -/
theorem AtHead.skip_elsewhere (hhead : AtHead judgement edges sweep head (edge :: rest))
    (hsource : edge.source ≠ startId) (htarget : edge.target ≠ startId)
    (helsewhere : edge.source ≠ head) :
    activeForward (sweep.next judgement edge).judged = activeForward sweep.judged ∧
      AtHead judgement edges (sweep.next judgement edge) head rest := by
  by_cases henters : sweep.enters edge = true
  · obtain ⟨hdecision, hnot⟩ : edge.sourceKind = .decision ∧ judgement.chooses edge = false := by
      rcases enters_iff.mp henters with hstart | hstart | ⟨other, hother, hotherTarget⟩
      · exact absurd hstart hsource
      · exact absurd hstart htarget
      · refine hhead.spent other ?_ ?_ edge List.mem_cons_self hotherTarget.symm
        · rw [activeForward, List.mem_filter]
          exact ⟨hother, by simpa [hotherTarget] using hsource⟩
        · rw [hotherTarget]
          exact helsewhere
    exact hhead.skip_unchosen hdecision hnot
  · rw [Bool.not_eq_true] at henters
    have hsame : activeForward (sweep.next judgement edge).judged =
        activeForward sweep.judged := by
      rw [activeForward_next, henters]
      simp
    exact ⟨hsame, hhead.skip hsame (by simp [isFrontier, henters]) fun heq =>
      absurd heq helsewhere⟩

theorem AtHead.move (h : Sound kinds edges) {passed : List Edge}
    (hsplit : edges = passed ++ edge :: rest)
    (hhead : AtHead judgement edges sweep edge.source (edge :: rest))
    (hchosen : judgement.chooses edge = true) (htarget : edge.target ≠ startId) :
    activeForward (sweep.next judgement edge).judged = activeForward sweep.judged ++ [edge] ∧
      AtHead judgement edges (sweep.next judgement edge) edge.target rest := by
  obtain ⟨earlier, hearlier, hlinked, hstart⟩ := hhead.mem_activeEdges
  have henters : sweep.enters edge = true :=
    enters_iff.mpr (Or.inr (Or.inr ⟨earlier, hearlier, hlinked⟩))
  have hsame : activeForward (sweep.next judgement edge).judged =
      activeForward sweep.judged ++ [edge] := by
    rw [activeForward_next, leadsOn_eq_chooses hhead.clear, henters, hchosen]
    simp [htarget]
  refine ⟨hsame, ⟨?_, ?_, ?_, ?_, h.exists_due judgement hsplit⟩⟩
  · intro other hother
    rw [hsame, List.mem_append, List.mem_singleton] at hother
    rcases hother with hother | rfl
    · exact hhead.taken other hother
    · simp [hsplit]
  · rw [hsame]
    exact ⟨edge, by simp, rfl⟩
  · have hvalid : sweep.isFrontier judgement edge = false := by
      unfold Judgement.chooses at hchosen
      unfold isFrontier
      cases hkind : edge.sourceKind <;> simp_all
    simp [next, hhead.clear, hvalid]
  · intro other hother hne next hnext hsource
    rw [hsame, List.mem_append, List.mem_singleton] at hother
    rcases hother with hother | rfl
    · by_cases heq : other.target = edge.source
      · exact h.other_not_chosen hsplit hchosen hstart hnext (hsource.trans heq)
      · exact hhead.spent other hother heq next (List.mem_cons_of_mem _ hnext) hsource
    · exact absurd rfl hne

end Sweep

/-! ### The run of the judge -/

section

variable {passed ahead : List Edge} {sweep : Sweep}

theorem activeForward_beyond (hbeyond : sweep.beyondFrontier = true)
    (hstarted : ∀ edge ∈ ahead, edge.sourceKind ≠ .start) :
    activeForward (ahead.foldl (Sweep.next judgement) sweep).judged =
      activeForward sweep.judged := by
  induction ahead generalizing sweep with
  | nil => rfl
  | cons edge rest ih =>
    have hleads : sweep.leadsOn judgement edge = false := by
      have hkind := hstarted edge List.mem_cons_self
      unfold Sweep.leadsOn
      cases hkindOf : edge.sourceKind <;> simp_all
    rw [List.foldl_cons, ih (by simp [Sweep.next, hbeyond]) fun other hother =>
      hstarted other (List.mem_cons_of_mem _ hother), activeForward_next, hleads]
    simp

theorem activeForward_halt (h : Sound kinds edges) {edge : Edge} {rest : List Edge}
    (hsplit : edges = passed ++ edge :: rest) (hstarted : ∀ other ∈ rest, other.source ≠ startId)
    (hhead : sweep.AtHead judgement edges edge.source (edge :: rest))
    (hkind : edge.sourceKind = .sectionVertex) (hinvalid : judgement.valid edge.source = false) :
    activeForward ((edge :: rest).foldl (Sweep.next judgement) sweep).judged =
      activeForward sweep.judged := by
  obtain ⟨earlier, hearlier, hlinked, _⟩ := hhead.mem_activeEdges
  have henters : sweep.enters edge = true :=
    Sweep.enters_iff.mpr (Or.inr (Or.inr ⟨earlier, hearlier, hlinked⟩))
  have hnot : judgement.chooses edge = false := by
    rw [Judgement.chooses, hkind]
    exact hinvalid
  rw [List.foldl_cons, activeForward_beyond, activeForward_next,
    Sweep.leadsOn_eq_chooses hhead.clear, hnot]
  · simp
  · simp [Sweep.next, Sweep.isFrontier, hkind, henters, hinvalid]
  · intro other hother hkindOther
    have hmem : other ∈ edges := by simp [hsplit, hother]
    exact hstarted other hother ((h.startKind _).mp (hkindOther ▸ h.sourceKind other hmem))

/-- From its head on, the judge finds active what a walk from there follows. -/
theorem exists_walks_of_atHead (h : Sound kinds edges)
    (hbefore : ∀ edge ∈ edges, edge.target = startId → edge.sourceKind = .sectionVertex →
      judgement.valid edge.source = true)
    (hsplit : edges = passed ++ ahead) (hstarted : ∀ edge ∈ ahead, edge.source ≠ startId)
    {head : String} (hhead : sweep.AtHead judgement edges head ahead) :
    ∃ walked, Walks kinds edges judgement head walked ∧
      activeForward (ahead.foldl (Sweep.next judgement) sweep).judged =
        activeForward sweep.judged ++ walked := by
  induction ahead generalizing passed sweep head with
  | nil =>
    rcases hhead.due with rfl | ⟨_, hmem, _⟩
    · exact ⟨[], .finish, by simp⟩
    · simp at hmem
  | cons edge rest ih =>
    have hmem : edge ∈ edges := by simp [hsplit]
    have hsource : edge.source ≠ startId := hstarted edge List.mem_cons_self
    have hrest : ∀ other ∈ rest, other.source ≠ startId := fun other hother =>
      hstarted other (List.mem_cons_of_mem _ hother)
    have hnext := fun sweep' head' (hhead' : sweep'.AtHead judgement edges head' rest) =>
      @ih (passed ++ [edge]) sweep' (by simp [hsplit]) hrest head' hhead'
    -- an edge that changes nothing leaves the rest of the walk to the edges behind it
    have hskip (hskipped : activeForward (sweep.next judgement edge).judged =
          activeForward sweep.judged ∧
          (sweep.next judgement edge).AtHead judgement edges head rest) :
        ∃ walked, Walks kinds edges judgement head walked ∧
          activeForward ((edge :: rest).foldl (Sweep.next judgement) sweep).judged =
            activeForward sweep.judged ++ walked := by
      obtain ⟨walked, hwalked, hactive⟩ := hnext _ _ hskipped.2
      exact ⟨walked, hwalked, by rw [List.foldl_cons, hactive, hskipped.1]⟩
    by_cases htarget : edge.target = startId
    · exact hskip (hhead.skip_into_start h hmem htarget (hbefore edge hmem htarget))
    by_cases hdue : edge.source = head
    · subst hdue
      by_cases hchosen : judgement.chooses edge = true
      · obtain ⟨hsame, hmoved⟩ := hhead.move h hsplit hchosen htarget
        obtain ⟨walked, hwalked, hactive⟩ := hnext _ _ hmoved
        refine ⟨edge :: walked, .step h hmem hsource hchosen hwalked, ?_⟩
        rw [List.foldl_cons, hactive, hsame]
        simp
      · rw [Bool.not_eq_true] at hchosen
        have hkind := h.sourceKind edge hmem
        cases hkindOf : edge.sourceKind with
        | start => exact absurd ((h.startKind _).mp (hkindOf ▸ hkind)) hsource
        | finish => exact absurd ((h.finishKind _).mp (hkindOf ▸ hkind)) (h.source_ne_end _ hmem)
        | decision => exact hskip (hhead.skip_unchosen hkindOf hchosen)
        | sectionVertex =>
          have hinvalid : judgement.valid edge.source = false := by
            simpa [Judgement.chooses, hkindOf] using hchosen
          refine ⟨[], .halt (hkindOf ▸ hkind) hinvalid, ?_⟩
          rw [activeForward_halt h hsplit hrest hhead hkindOf hinvalid, List.append_nil]
    · exact hskip (hhead.skip_elsewhere hsource htarget hdue)

theorem activeForward_unstarted (hstarted : ∀ edge ∈ ahead, edge.source ≠ startId)
    (hbefore : ∀ edge ∈ ahead, edge.target = startId → edge.sourceKind = .sectionVertex →
      judgement.valid edge.source = true)
    (hnone : activeForward sweep.judged = []) (hclear : sweep.beyondFrontier = false) :
    activeForward (ahead.foldl (Sweep.next judgement) sweep).judged = [] ∧
      (ahead.foldl (Sweep.next judgement) sweep).beyondFrontier = false := by
  induction ahead generalizing sweep with
  | nil => exact ⟨hnone, hclear⟩
  | cons edge rest ih =>
    have henters : sweep.enters edge = true → edge.target = startId := by
      intro henters
      rcases Sweep.enters_iff.mp henters with hstart | hstart | ⟨earlier, hearlier, hlinked⟩
      · exact absurd hstart (hstarted edge List.mem_cons_self)
      · exact hstart
      · have hforward := List.filter_eq_nil_iff.mp hnone earlier hearlier
        rw [decide_eq_true_eq, not_not] at hforward
        exact absurd (hlinked ▸ hforward) (hstarted edge List.mem_cons_self)
    refine ih (fun other hother => hstarted other (List.mem_cons_of_mem _ hother))
      (fun other hother => hbefore other (List.mem_cons_of_mem _ hother)) ?_ ?_
    · rw [activeForward_next, hnone, List.nil_append, if_neg]
      intro hactive
      simp only [Bool.and_eq_true, decide_eq_true_eq] at hactive
      exact hactive.2 (henters hactive.1.1)
    · rw [Sweep.next, hclear, Bool.false_or, Sweep.isFrontier]
      by_contra hfrontier
      simp only [Bool.not_eq_false, Bool.and_eq_true, decide_eq_true_eq,
        Bool.not_eq_true'] at hfrontier
      have hvalid := hbefore edge List.mem_cons_self (henters hfrontier.1.2) hfrontier.1.1
      simp [hvalid] at hfrontier

end

theorem activeForward_judge (h : Sound kinds edges) {first : Edge}
    (hfirst : edges.filter (·.source = startId) = [first])
    (hbefore : ∀ edge ∈ edges, edge.target = startId → edge.sourceKind = .sectionVertex →
      judgement.valid edge.source = true) :
    ∃ walked, Walks kinds edges judgement first.target walked ∧
      activeForward (judge judgement edges) = first :: walked := by
  obtain ⟨front, back, hsplit, hfront, hsource, hback⟩ := List.filter_eq_cons_iff.mp hfirst
  simp only [decide_eq_true_eq] at hfront hsource
  have hmem : first ∈ edges := by simp [hsplit]
  have hstarted : ∀ edge ∈ back, edge.source ≠ startId := by
    intro edge hedge
    simpa using List.filter_eq_nil_iff.mp hback edge hedge
  have htarget : first.target ≠ startId := hsource ▸ h.noLoop first hmem
  have hkind : first.sourceKind = .start :=
    h.sourceKind_eq hmem ((h.startKind _).mpr hsource)
  obtain ⟨hnone, hclear⟩ : activeForward (sweep judgement front).judged = [] ∧
      (sweep judgement front).beyondFrontier = false :=
    activeForward_unstarted hfront (fun edge hedge => hbefore edge (by simp [hsplit, hedge]))
      rfl rfl
  have hactive : activeForward ((sweep judgement front).next judgement first).judged = [first] := by
    rw [activeForward_next, hnone]
    simp [Sweep.enters, Sweep.leadsOn, hsource, hkind, htarget]
  -- the edge that leaves `START` makes its target the head
  have hhead : ((sweep judgement front).next judgement first).AtHead judgement edges
      first.target back := by
    refine ⟨?_, ?_, ?_, ?_, h.exists_due judgement hsplit⟩
    · rw [hactive]
      simp [hmem]
    · rw [hactive]
      exact ⟨first, by simp, rfl⟩
    · rw [Sweep.next, hclear]
      simp [Sweep.isFrontier, hkind]
    · rw [hactive]
      intro earlier hearlier hne
      rw [List.mem_singleton] at hearlier
      exact absurd (hearlier ▸ rfl) hne
  have hpassed : edges = (front ++ [first]) ++ back := by simp [hsplit]
  obtain ⟨walked, hwalked, hjudged⟩ := exists_walks_of_atHead h hbefore hpassed hstarted hhead
  refine ⟨walked, hwalked, ?_⟩
  rw [hactive] at hjudged
  rw [← List.singleton_append, ← hjudged, judge_eq_judged, sweep, hsplit, List.foldl_append,
    List.foldl_cons, sweep]

/-! ### The pathway -/

theorem eraseDups_of_nodup {ids : List String} (h : ids.Nodup) : ids.eraseDups = ids := by
  induction ids with
  | nil => rfl
  | cons first rest ih =>
    obtain ⟨hfirst, hrest⟩ := List.nodup_cons.mp h
    have hkept : rest.filter (fun id => !id == first) = rest := by
      rw [List.filter_eq_self]
      intro id hid
      have hne : id ≠ first := fun heq => hfirst (heq ▸ hid)
      simpa using hne
    rw [List.eraseDups_cons, hkept, ih hrest]

theorem Walks.source_not_reserved (h : Sound kinds edges) {id : String} {walked : List Edge}
    (hwalked : Walks kinds edges judgement id walked) :
    ∀ edge ∈ walked, edge ∈ edges ∧ isReserved edge.source = false := by
  induction walked generalizing id with
  | nil => simp
  | cons first rest ih =>
    obtain ⟨hmem, hsource, hstart, hrest⟩ := hwalked.edge_of_cons h
    intro edge hedge
    rcases List.mem_cons.mp hedge with rfl | hedge
    · have hin := List.mem_of_mem_filter hmem
      exact ⟨hin, by simp [isReserved, hsource ▸ hstart, h.source_ne_end edge hin]⟩
    · exact ih hrest edge hedge

theorem nodup_sources (h : Sound kinds edges) {walked : List Edge}
    (hsub : walked.Sublist (activeEdges (judge judgement edges)))
    (hstart : ∀ edge ∈ walked, edge.source ≠ startId) : (walked.map Edge.source).Nodup := by
  rw [List.nodup_iff_count_le_one]
  intro id
  by_cases hid : id = startId
  · have hnot : id ∉ walked.map Edge.source := by
      intro hmem
      obtain ⟨edge, hedge, rfl⟩ := List.mem_map.mp hmem
      exact hstart edge hedge hid
    rw [List.count_eq_zero_of_not_mem hnot]
    exact Nat.zero_le _
  · have hcount : (walked.map Edge.source).count id =
        (walked.filter (·.source = id)).length := by
      rw [List.count, List.countP_map, List.countP_eq_length_filter]
      congr 1
    rw [hcount]
    exact Nat.le_trans (hsub.filter _).length_le (h.length_active_le_one judgement hid)

theorem pathway_of_activeForward (h : Sound kinds edges) {first : Edge} {id : String}
    {walked : List Edge} (hfirst : first.source = startId)
    (hwalked : Walks kinds edges judgement id walked)
    (hactive : activeForward (judge judgement edges) = first :: walked) :
    pathway (judge judgement edges) = walked.map Edge.source := by
  have hsources : (((judge judgement edges).filter fun edge =>
        edge.active && edge.target ≠ startId).map fun edge => edge.source) =
      (activeForward (judge judgement edges)).map Edge.source := by
    rw [activeForward, activeEdges, List.filter_map, List.map_map, List.filter_filter]
    congr 1
    apply List.filter_congr
    intro edge _
    simp [Bool.and_comm]
  have hreserved := hwalked.source_not_reserved h
  have hkept : (walked.map Edge.source).filter (fun id => !isReserved id) =
      walked.map Edge.source := by
    rw [List.filter_eq_self]
    intro id hid
    obtain ⟨edge, hedge, rfl⟩ := List.mem_map.mp hid
    simp [(hreserved edge hedge).2]
  have hsub : walked.Sublist (activeEdges (judge judgement edges)) := by
    have hforward : (activeForward (judge judgement edges)).Sublist
        (activeEdges (judge judgement edges)) := List.filter_sublist
    rw [hactive] at hforward
    exact (List.sublist_cons_self first walked).trans hforward
  rw [pathway, hsources, hactive, List.map_cons, hfirst, List.filter_cons_of_neg (by
    simp [isReserved]), hkept]
  apply eraseDups_of_nodup
  refine nodup_sources h hsub ?_
  intro edge hedge heq
  have hnot := (hreserved edge hedge).2
  simp [isReserved, heq] at hnot

end FormFlow.Route
