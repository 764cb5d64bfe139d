import Mathlib.Data.List.Induction
import FormFlow.Flow.Pruning
import FormFlow.Proofs.Expr.Reads
import FormFlow.Proofs.Path.Places
import FormFlow.Proofs.Plan.Guards

/-!
# The inspections of a pruning

Pruning inspects one place after another (`prune_eq_after`), each in what the inspections before it
have left, and takes out those that are not live. No inspection brings a value back, and a value is
lost exactly if a place above it or its own is found not live (`exists_failed_of_lost`).

Whether a place is live depends only on what its preconditions read. So if this is otherwise after
some inspections, then one of them took out a value and thereby changed such a read
(`disturbed_of_isLive_ne`).
-/

namespace FormFlow.Flow

/-- The places that are inspected for the patterns of a list, in order. -/
def inspected (flow : Flow) : List Pattern → Document → List Location
  | [], _ => []
  | pattern :: rest, document =>
    pattern.locations document ++ flow.inspected rest (flow.prunePattern document pattern)

/-- All places that pruning inspects, in order. -/
def inspections (flow : Flow) (document : Document) : List Location :=
  flow.inspected flow.plan.guardOrder document

/-- What is left of a document after some places are inspected. -/
def after (flow : Flow) (document : Document) (places : List Location) : Document :=
  places.foldl flow.pruneLocation document

variable {flow : Flow} {document : Document} {location place : Location}
  {order : List Pattern} {places front back : List Location}

@[simp] theorem after_nil (flow : Flow) (document : Document) :
    flow.after document [] = document := rfl

@[simp] theorem after_cons (flow : Flow) (document : Document) (place : Location)
    (places : List Location) : flow.after document (place :: places) =
      flow.after (flow.pruneLocation document place) places := rfl

theorem after_append (flow : Flow) (document : Document) (front back : List Location) :
    flow.after document (front ++ back) = flow.after (flow.after document front) back :=
  List.foldl_append ..

theorem foldl_prunePattern (flow : Flow) (order : List Pattern) (document : Document) :
    order.foldl flow.prunePattern document =
      flow.after document (flow.inspected order document) := by
  induction order generalizing document with
  | nil => rfl
  | cons pattern rest ih =>
    rw [List.foldl_cons, ih, inspected, after_append]
    rfl

theorem prune_eq_after (flow : Flow) (document : Document) :
    flow.prune document = flow.after document (flow.inspections document) :=
  foldl_prunePattern ..

/-! ### What is left -/

theorem pruneLocation_eq (flow : Flow) (document : Document) (place : Location) :
    flow.pruneLocation document place = document ∨
      flow.isLive document place = false ∧
        flow.pruneLocation document place = document.without place := by
  unfold pruneLocation
  cases flow.isLive document place
  · exact Or.inr ⟨rfl, rfl⟩
  · exact Or.inl rfl

theorem isPresent_of_after (h : (flow.after document places).IsPresent location) :
    document.IsPresent location := by
  induction places generalizing document with
  | nil => exact h
  | cons place rest ih =>
    have hstep := ih h
    rcases flow.pruneLocation_eq document place with heq | ⟨_, heq⟩
    · rwa [heq] at hstep
    · rw [heq] at hstep
      exact Document.isPresent_of_without hstep

theorem fits_of_after (h : (flow.after document places).Fits location) :
    document.Fits location := by
  induction places generalizing document with
  | nil => exact h
  | cons place rest ih =>
    have hstep := ih h
    rcases flow.pruneLocation_eq document place with heq | ⟨_, heq⟩
    · rwa [heq] at hstep
    · rw [heq] at hstep
      exact Document.fits_of_without hstep

theorem fits_after (h : document.Fits location) :
    (flow.after document places).Fits location ∨
      (flow.after document places).at? location = none := by
  induction places using List.reverseRecOn with
  | nil => exact Or.inl h
  | append_singleton init last ih =>
    rw [after_append, after_cons, after_nil]
    generalize flow.after document init = seen at ih
    rcases flow.pruneLocation_eq seen last with heq | ⟨_, heq⟩
    · rwa [heq]
    · rw [heq]
      cases hvalue : (seen.without last).at? location with
      | none => exact Or.inr rfl
      | some value =>
        obtain ⟨before, hbefore, _⟩ := Document.at?_of_without hvalue
        rcases ih with hfits | hnone
        · exact Or.inl (Document.fits_without hfits (by simp [hvalue]))
        · simp [hbefore] at hnone

/-! ### Inspected places -/

theorem not_isPresent_of_failed (hfailed : flow.isLive document place = false)
    (hbelow : place <+: location) :
    ¬ (flow.after document (place :: back)).IsPresent location := by
  intro h
  have hplace : place ≠ [] := by
    rintro rfl
    have hlive : flow.isLive document [] = true := rfl
    simp [hlive] at hfailed
  rw [after_cons] at h
  have hstep := isPresent_of_after h
  rw [pruneLocation, hfailed] at hstep
  obtain ⟨below, rfl⟩ := hbelow
  exact Document.not_isPresent_without hplace hstep

theorem exists_names_of_mem_inspected (h : location ∈ flow.inspected order document) :
    ∃ pattern ∈ order, pattern.Names location := by
  induction order generalizing document with
  | nil => simp [inspected] at h
  | cons first rest ih =>
    rw [inspected, List.mem_append] at h
    rcases h with h | h
    · exact ⟨first, List.mem_cons_self, (Pattern.mem_locations_iff.mp h).1⟩
    · obtain ⟨pattern, hpattern, hnames⟩ := ih h
      exact ⟨pattern, List.mem_cons_of_mem _ hpattern, hnames⟩

/-- Where the inspections of some patterns stand: at a place of one of them, with places of this
one and those behind it still to come. -/
theorem inspected_split (h : flow.inspected order document = front ++ place :: back) :
    ∃ passed pattern rest, order = passed ++ pattern :: rest ∧ pattern.Names place ∧
      (∀ other ∈ back, ∃ later ∈ pattern :: rest, later.Names other) ∧
      ((flow.after document front).Fits place ∨ (flow.after document front).at? place = none) := by
  induction order generalizing document front with
  | nil => simp [inspected] at h
  | cons first rest ih =>
    rw [inspected] at h
    -- the place belongs to a pattern behind the first
    have hbehind : ∀ skipped, front = first.locations document ++ skipped →
        flow.inspected rest (flow.prunePattern document first) = skipped ++ place :: back →
        ∃ passed pattern later, first :: rest = passed ++ pattern :: later ∧
          pattern.Names place ∧ (∀ other ∈ back, ∃ next ∈ pattern :: later, next.Names other) ∧
          ((flow.after document front).Fits place ∨
            (flow.after document front).at? place = none) := by
      rintro skipped rfl hrest
      obtain ⟨passed, pattern, later, rfl, hnames, hback, hfits⟩ := ih hrest
      rw [after_append]
      exact ⟨first :: passed, pattern, later, rfl, hnames, hback, hfits⟩
    rcases List.append_eq_append_iff.mp h with ⟨skipped, hfront, hrest⟩ | ⟨own, hown, hrest⟩
    · exact hbehind skipped hfront hrest
    · cases own with
      | nil => exact hbehind [] (by simpa using hown.symm) (by simpa using hrest.symm)
      | cons head own =>
        obtain ⟨rfl, rfl⟩ := List.cons.inj hrest
        have hplace : place ∈ first.locations document := by simp [hown]
        rw [Pattern.mem_locations_iff] at hplace
        refine ⟨[], first, rest, rfl, hplace.1, fun other hother => ?_, fits_after hplace.2⟩
        rcases List.mem_append.mp hother with hother | hother
        · have hmem : other ∈ first.locations document := by simp [hown, hother]
          exact ⟨first, List.mem_cons_self, (Pattern.mem_locations_iff.mp hmem).1⟩
        · obtain ⟨pattern, hpattern, hnames⟩ := exists_names_of_mem_inspected hother
          exact ⟨pattern, List.mem_cons_of_mem _ hpattern, hnames⟩

theorem mem_inspected {pattern : Pattern} (hpattern : pattern ∈ order)
    (h : location ∈ pattern.locations (flow.after document (flow.inspected order document))) :
    location ∈ flow.inspected order document := by
  induction order generalizing document with
  | nil => simp at hpattern
  | cons first rest ih =>
    rw [inspected, List.mem_append]
    rw [inspected, after_append] at h
    rcases List.mem_cons.mp hpattern with rfl | hrest
    · left
      rw [Pattern.mem_locations_iff] at h ⊢
      exact ⟨h.1, fits_of_after (fits_of_after h.2)⟩
    · exact Or.inr (ih hrest h)

theorem isLive_of_kept (h : flow.inspections document = front ++ place :: back)
    (hkept : (flow.prune document).IsPresent place) :
    flow.isLive (flow.after document front) place = true := by
  by_contra hfailed
  rw [Bool.not_eq_true] at hfailed
  rw [prune_eq_after, h, after_append] at hkept
  exact not_isPresent_of_failed hfailed (List.prefix_refl place) hkept

theorem exists_split_of_kept {form : Form} (hplan : Plan.Makes form flow.plan) {node : Plan.Node}
    (hnode : node ∈ flow.plan.nodes) (hguarded : node.isGuarded = true)
    (hplace : place ∈ node.path.locations (flow.prune document)) :
    ∃ front back, flow.inspections document = front ++ place :: back := by
  rw [prune_eq_after] at hplace
  exact List.append_of_mem (mem_inspected (Plan.mem_guardOrder hplan hnode hguarded) hplace)

/-- What holds of a document, and of what is left whenever a place is found not live and taken out,
holds of what pruning leaves. -/
theorem prune_induction {motive : Document → Prop} (hstart : motive document)
    (hremove : ∀ front place back, flow.inspections document = front ++ place :: back →
      (flow.after document front).Fits place →
      flow.isLive (flow.after document front) place = false →
      motive (flow.after document front) → motive ((flow.after document front).without place)) :
    motive (flow.prune document) := by
  have hrun : ∀ front back, flow.inspections document = front ++ back →
      motive (flow.after document front) := by
    intro front
    induction front using List.reverseRecOn with
    | nil => exact fun _ _ => hstart
    | append_singleton init place ih =>
      intro back hsplit
      rw [List.append_assoc, List.singleton_append] at hsplit
      have hseen := ih _ hsplit
      rw [after_append, after_cons, after_nil]
      rcases flow.pruneLocation_eq (flow.after document init) place with heq | ⟨hfailed, heq⟩
      · rwa [heq]
      · rw [heq]
        -- a place that is gone by now is nothing to take out
        obtain ⟨_, _, _, _, _, _, hplace | hnone⟩ := inspected_split hsplit
        · exact hremove init place back hsplit hplace hfailed hseen
        · rwa [Document.without_of_at?_eq_none hnone]
  rw [prune_eq_after]
  exact hrun _ [] (List.append_nil _).symm

theorem exists_failed_of_lost (hfits : document.Fits location)
    (hpresent : document.IsPresent location)
    (hlost : ¬ (flow.prune document).IsPresent location) :
    ∃ front place back, flow.inspections document = front ++ place :: back ∧
      place <+: location ∧ flow.isLive (flow.after document front) place = false := by
  by_contra hnone
  -- as long as no inspection fails above it, the value stays
  refine hlost (prune_induction
    (motive := fun seen => seen.Fits location ∧ seen.IsPresent location) ⟨hfits, hpresent⟩ ?_).2
  rintro front place back hsplit hplace hfailed ⟨hfitsSeen, hseen⟩
  have hkept : ((flow.after document front).without place).IsPresent location := by
    by_contra hgone
    exact hnone ⟨front, place, back, hsplit,
      Document.prefix_of_lost hplace hfitsSeen hseen hgone, hfailed⟩
  obtain ⟨value, hvalue, hnull⟩ := hkept
  exact ⟨Document.fits_without hfitsSeen (by simp [hvalue]), value, hvalue, hnull⟩

/-! ### What an inspection reads -/

/-- The preconditions on the way to a location find the same in two documents. -/
def FindsAlike (flow : Flow) (location : Location) (document other : Document) : Prop :=
  ∀ checkpoint ∈ flow.plan.checkpoints none location.upward,
    ∀ precondition ∈ checkpoint.1.preconditions, ∀ read ∈ precondition.reads,
      (flow.scope document (some checkpoint.2)).find read =
        (flow.scope other (some checkpoint.2)).find read

/-- While the given places are inspected, a value is taken out and thereby something changed that
the preconditions on the way to a location read. -/
def Disturbs (flow : Flow) (document : Document) (places : List Location)
    (location : Location) : Prop :=
  ∃ front place back, places = front ++ place :: back ∧
    flow.isLive (flow.after document front) place = false ∧
    ¬ flow.FindsAlike location (flow.after document front)
      ((flow.after document front).without place)

theorem holds_congr {other : Document} {here there : Location} {precondition : Expr}
    (h : ∀ read ∈ precondition.reads, (flow.scope document (some here)).find read =
      (flow.scope other (some there)).find read) :
    precondition.holds (flow.scope document (some here)) =
      precondition.holds (flow.scope other (some there)) := by
  rw [Expr.holds, Expr.holds]
  congr 1
  refine Expr.resolve_congr ?_ precondition h
  rfl

theorem isLive_congr {other : Document} (h : flow.FindsAlike location document other) :
    flow.isLive document location = flow.isLive other location := by
  rw [Bool.eq_iff_iff]
  simp only [isLive, List.all_eq_true]
  refine forall₂_congr fun checkpoint hcheckpoint => forall₂_congr fun precondition hmem => ?_
  rw [holds_congr (h checkpoint hcheckpoint precondition hmem)]

/-- Whether a location is live changes only by a removal that its preconditions notice. -/
theorem disturbs_of_isLive_ne
    (h : flow.isLive document location ≠ flow.isLive (flow.after document places) location) :
    flow.Disturbs document places location := by
  induction places generalizing document with
  | nil => exact absurd rfl h
  | cons place rest ih =>
    have hlater (hsame : flow.isLive document location =
        flow.isLive (flow.pruneLocation document place) location) :
        flow.Disturbs document (place :: rest) location := by
      rw [hsame, after_cons] at h
      obtain ⟨front, other, back, rfl, hfailed, hfinds⟩ := ih h
      exact ⟨place :: front, other, back, rfl, hfailed, hfinds⟩
    rcases flow.pruneLocation_eq document place with heq | ⟨hfailed, heq⟩
    · exact hlater (by rw [heq])
    · by_cases hfinds : flow.FindsAlike location document (document.without place)
      · exact hlater (by rw [heq, isLive_congr hfinds])
      · exact ⟨[], place, rest, rfl, hfailed, hfinds⟩

end FormFlow.Flow
