/-
Taking turns around a ring.

The items stand in a queue `left ++ cur :: right`, and `cur` has its turn.  The others wait in
the order `right ++ left`: those behind it, then from the head on.  A turn keeps that order.
-/

import Mathlib.Data.List.Nodup

namespace MangoOS

variable {α : Type}

/-- One turn.  Items of `more` join at the tail. -/
inductive Turn (left : List α) (cur : α) (right : List α) : List α → α → List α → Prop
  | alone (more : List α) (empty : left ++ right = []) :
      Turn left cur right left cur (right ++ more)
  | forward {next : α} {rest more : List α} (split : right ++ more = next :: rest) :
      Turn left cur right (left ++ [cur]) next rest
  | wrap {next : α} {rest more : List α} (last : right = []) (split : left = next :: rest) :
      Turn left cur right [] next (rest ++ cur :: more)
  | back {next : α} {rest more : List α} (first : left = []) (split : right = next :: rest) :
      Turn left cur right [] next (rest ++ cur :: more)
  | leave {next : α} {rest : List α} (atEnd : left = [] ∨ right = [])
      (split : left ++ right = next :: rest) : Turn left cur right [] next rest

/-- `c` has its turn before `t` has it (again): `t` comes later in the order, or is not in the
queue and joins it behind `c`. -/
structure Ahead (c t : α) (left : List α) (cur : α) (right : List α) : Prop where
  notTurn : cur ≠ t ∧ cur ≠ c
  order : (t ∉ left ++ right ∧ c ∈ right) ∨ [c, t].Sublist (right ++ left)

variable {c t cur cur' next : α} {left right left' right' rest more : List α}

theorem sublist_pair (inFirst : c ∈ left) (inSecond : t ∈ right) :
    [c, t].Sublist (left ++ right) :=
  List.Sublist.append (List.singleton_sublist.mpr inFirst) (List.singleton_sublist.mpr inSecond)

/-- The item at the front is `c`, or `c` stays ahead behind it, and it is not `t`. -/
theorem sublist_front (distinct : (next :: rest).Nodup)
    (order : [c, t].Sublist (next :: rest)) :
    next = c ∨ (next ≠ t ∧ [c, t].Sublist rest) := by
  by_cases isNext : next = c
  · exact Or.inl isNext
  · right
    have later : [c, t].Sublist rest := by
      cases order with
      | cons _ later => exact later
      | cons_cons _ _ => exact absurd rfl isNext
    refine ⟨?_, later⟩
    intro same
    apply (List.nodup_cons.mp distinct).1
    rw [same]
    exact later.subset (List.mem_cons_of_mem c (List.mem_singleton_self t))

/-- The first turn that passes on from `t` puts `c` ahead of it. -/
theorem Turn.passes (turn : Turn left t right left' cur' right')
    (before : (left ++ t :: right).Nodup) (after : (left' ++ cur' :: right').Nodup)
    (waits : c ∈ left ++ right) : cur' = c ∨ Ahead c t left' cur' right' := by
  have absent : t ∉ left ++ right := by
    intro member
    apply (List.nodup_middle.mp before).notMem
    exact member
  have present : t ∈ left' ++ right' → cur' ≠ t := by
    intro member same
    apply (List.nodup_middle.mp after).notMem
    rw [same]
    exact member
  cases turn with
  | alone more empty =>
      rw [empty] at waits
      cases waits
  | forward split =>
      rename_i more
      by_cases isNext : cur' = c
      · exact Or.inl isNext
      · right
        have inRest : c ∈ right' ++ left := by
          rcases List.mem_append.mp waits with inLeft | inRight
          · exact List.mem_append_right _ inLeft
          · have inBoth := List.mem_append_left more inRight
            rw [split] at inBoth
            exact List.mem_append_left _
              ((List.mem_cons.mp inBoth).resolve_left (fun same => isNext same.symm))
        refine ⟨⟨present (by simp), isNext⟩, Or.inr ?_⟩
        rw [← List.append_assoc]
        exact sublist_pair inRest (List.mem_singleton_self t)
  | wrap last split =>
      rename_i rest more
      rw [last, List.append_nil, split] at waits
      rcases List.mem_cons.mp waits with isNext | inRest
      · exact Or.inl isNext.symm
      · by_cases isNext : cur' = c
        · exact Or.inl isNext
        · right
          refine ⟨⟨present (by simp), isNext⟩, Or.inr ?_⟩
          rw [List.append_nil]
          exact sublist_pair inRest (List.mem_cons_self ..)
  | back first split =>
      rename_i rest more
      rw [first, List.nil_append, split] at waits
      rcases List.mem_cons.mp waits with isNext | inRest
      · exact Or.inl isNext.symm
      · by_cases isNext : cur' = c
        · exact Or.inl isNext
        · right
          refine ⟨⟨present (by simp), isNext⟩, Or.inr ?_⟩
          rw [List.append_nil]
          exact sublist_pair inRest (List.mem_cons_self ..)
  | leave atEnd split =>
      rw [split] at waits absent
      rcases List.mem_cons.mp waits with isNext | inRest
      · exact Or.inl isNext.symm
      · by_cases isNext : cur' = c
        · exact Or.inl isNext
        · right
          refine ⟨⟨?_, isNext⟩, Or.inl ⟨?_, inRest⟩⟩
          · intro same
            exact absent (same ▸ List.mem_cons_self ..)
          · exact fun member => absent (List.mem_cons_of_mem _ member)

/-- What waits at the front of a queue keeps its place when the front takes its turn. -/
theorem ahead_front (more : List α) (distinct : (next :: (rest ++ more)).Nodup)
    (order : (t ∉ next :: rest ∧ c ∈ next :: rest) ∨ [c, t].Sublist (next :: rest)) :
    next = c ∨ (next ≠ t ∧ (t ∉ rest ++ more ∧ c ∈ rest ∨ [c, t].Sublist (rest ++ more))) := by
  rcases order with ⟨absent, waits⟩ | order
  · rcases List.mem_cons.mp waits with isNext | inRest
    · exact Or.inl isNext.symm
    · right
      refine ⟨fun same => absent (same ▸ List.mem_cons_self ..), ?_⟩
      by_cases joins : t ∈ more
      · exact Or.inr (sublist_pair inRest joins)
      · left
        refine ⟨?_, inRest⟩
        intro member
        rcases List.mem_append.mp member with old | new
        · exact absent (List.mem_cons_of_mem _ old)
        · exact joins new
  · have shorter : (next :: rest).Nodup := by
      rw [← List.cons_append] at distinct
      exact (List.nodup_append.mp distinct).1
    rcases sublist_front shorter order with isNext | ⟨notTurn, later⟩
    · exact Or.inl isNext
    · exact Or.inr ⟨notTurn, Or.inr (later.trans (List.sublist_append_left rest more))⟩

theorem ahead_requeued (distinct : (next :: (rest ++ cur :: more)).Nodup)
    (order : (t ∉ next :: rest ∧ c ∈ next :: rest) ∨ [c, t].Sublist (next :: rest)) :
    next = c ∨ Ahead c t [] next (rest ++ cur :: more) := by
  rcases ahead_front _ distinct order with isNext | ⟨notTurn, later⟩
  · exact Or.inl isNext
  · by_cases isNext : next = c
    · exact Or.inl isNext
    · right
      refine ⟨⟨notTurn, isNext⟩, ?_⟩
      rw [List.nil_append, List.append_nil]
      rcases later with ⟨absent, waits⟩ | later
      · exact Or.inl ⟨absent, List.mem_append_left _ waits⟩
      · exact Or.inr later

/-- What joins at the tail comes behind all that waits. -/
theorem Ahead.joined (ahead : Ahead c t left cur right) (more : List α) :
    Ahead c t left cur (right ++ more) := by
  obtain ⟨notTurn, order⟩ := ahead
  refine ⟨notTurn, ?_⟩
  rcases order with ⟨absent, waits⟩ | order
  · by_cases joins : t ∈ more
    · right
      exact (sublist_pair waits joins).trans (List.sublist_append_left _ left)
    · left
      refine ⟨?_, List.mem_append_left more waits⟩
      intro member
      rw [← List.append_assoc] at member
      exact (List.mem_append.mp member).elim absent joins
  · right
    exact order.trans ((List.sublist_append_left right more).append (List.Sublist.refl left))

/-- A turn keeps what is ahead, or gives `c` its turn. -/
theorem Turn.ahead (turn : Turn left cur right left' cur' right')
    (distinct : (left' ++ cur' :: right').Nodup)
    (ahead : Ahead c t left cur right) : cur' = c ∨ Ahead c t left' cur' right' := by
  obtain ⟨⟨notT, notC⟩, order⟩ := ahead
  cases turn with
  | alone more empty =>
      obtain ⟨noLeft, noRight⟩ := List.append_eq_nil_iff.mp empty
      rw [noLeft, noRight] at order
      rcases order with ⟨_, waits⟩ | order
      · cases waits
      · cases order
  | forward split =>
      rename_i more
      have ring : (cur' :: (right' ++ left)).Nodup := by
        rw [← List.cons_append]
        apply List.nodup_append_comm.mp
        exact distinct.sublist
          ((List.sublist_append_left left [cur]).append (List.Sublist.refl _))
      have grows : (right' ++ left).Sublist (right' ++ (left ++ [cur])) := by
        rw [← List.append_assoc]
        exact List.sublist_append_left _ [cur]
      rcases order with ⟨absent, waits⟩ | order
      · cases right with
        | nil => cases waits
        | cons first rest =>
            rw [List.cons_append, List.cons.injEq] at split
            obtain ⟨isFirst, isRest⟩ := split
            rw [isFirst] at absent waits
            rw [← isRest] at ring ⊢
            rcases ahead_front more ((List.sublist_append_left _ left).nodup ring)
                (Or.inl ⟨fun member => absent (List.mem_append_right left member), waits⟩) with
              isNext | ⟨notTurn, notIn | later⟩
            · exact Or.inl isNext
            · by_cases isNext : cur' = c
              · exact Or.inl isNext
              · right
                refine ⟨⟨notTurn, isNext⟩, Or.inl ⟨?_, List.mem_append_left more notIn.2⟩⟩
                intro member
                rcases List.mem_append.mp member with inLeft | inRight
                · rcases List.mem_append.mp inLeft with old | isCur
                  · exact absent (List.mem_append_left _ old)
                  · exact notT (List.mem_singleton.mp isCur).symm
                · exact notIn.1 inRight
            · by_cases isNext : cur' = c
              · exact Or.inl isNext
              · right
                exact ⟨⟨notTurn, isNext⟩,
                  Or.inr (later.trans (List.sublist_append_left _ (left ++ [cur])))⟩
      · have longer : [c, t].Sublist (cur' :: (right' ++ left)) := by
          rw [← List.cons_append, ← split]
          exact order.trans
            ((List.sublist_append_left right more).append (List.Sublist.refl left))
        rcases sublist_front ring longer with isNext | ⟨notTurn, later⟩
        · exact Or.inl isNext
        · by_cases isNext : cur' = c
          · exact Or.inl isNext
          · exact Or.inr ⟨⟨notTurn, isNext⟩, Or.inr (later.trans grows)⟩
  | wrap last split =>
      rename_i rest more
      have front : [c, t].Sublist (cur' :: rest) := by
        rcases order with ⟨_, waits⟩ | order
        · rw [last] at waits
          cases waits
        · rw [last, List.nil_append, split] at order
          exact order
      exact ahead_requeued distinct (Or.inr front)
  | back first split =>
      rename_i rest more
      apply ahead_requeued distinct
      rw [first, List.append_nil, split, List.nil_append] at order
      exact order
  | leave atEnd split =>
      have front : (t ∉ cur' :: right' ∧ c ∈ cur' :: right') ∨ [c, t].Sublist (cur' :: right') := by
        rw [← split]
        rcases order with ⟨absent, waits⟩ | order
        · exact Or.inl ⟨absent, List.mem_append_right left waits⟩
        · right
          rcases atEnd with first | last
          · rw [first, List.append_nil] at order
            rw [first]
            exact order
          · rw [last, List.nil_append] at order
            rw [last, List.append_nil]
            exact order
      have noMore := ahead_front [] (by rw [List.append_nil]; exact distinct) front
      rw [List.append_nil] at noMore
      rcases noMore with isNext | ⟨notTurn, later⟩
      · exact Or.inl isNext
      · by_cases isNext : cur' = c
        · exact Or.inl isNext
        · right
          refine ⟨⟨notTurn, isNext⟩, ?_⟩
          rw [List.nil_append, List.append_nil]
          exact later

end MangoOS
