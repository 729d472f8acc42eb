import Readiness.Inference.Rules

/-!
# What the rules of typing read

Typing a statement gives a result, asks for the result of one target, or ends with a
defect; which of them depends on the types of the operands of the statement only (`plan_congr`).
-/

namespace Readiness

open List

namespace Table

variable {κ α : Type} [DecidableEq κ]

theorem mem_entries_ofList {entries : List (κ × α)} {e : κ × α}
    (h : e ∈ (ofList entries).entries) : e ∈ entries := by
  have hfold : ∀ (entries : List (κ × α)) (t : Table κ α),
      e ∈ (entries.foldl (fun t e => t.set e.1 e.2) t).entries → e ∈ t.entries ∨ e ∈ entries := by
    intro entries
    induction entries with
    | nil => exact fun t h => .inl h
    | cons first rest ih =>
      intro t h
      rcases ih _ h with h | h
      · rcases mem_entries_set h with rfl | h
        · exact .inr mem_cons_self
        · exact .inl h
      · exact .inr (mem_cons_of_mem _ h)
  exact (hfold entries empty h).resolve_left (not_mem_nil)

end Table

namespace Inference

open Graph (Statement Operand CallInfo)

section Operands

variable {s : Statement} {o : Operand}

theorem mem_operands_of_mem_positionalArgs (h : o ∈ s.positionalArgs) : o ∈ s.operands := by
  unfold Statement.positionalArgs at h
  split at h
  · exact Statement.mem_operands_of_mem_args h
  · exact Statement.mem_operands_of_mem_args (mem_of_mem_take h)

theorem mem_operands_of_mem_keywordArgs (h : o ∈ s.keywordArgs.values) : o ∈ s.operands := by
  obtain ⟨e, he, rfl⟩ := mem_map.mp h
  unfold Statement.keywordArgs at he
  split at he
  · cases he
  · exact Statement.mem_operands_of_mem_args
      (mem_of_mem_drop (of_mem_zip (Table.mem_entries_ofList he)).2)

end Operands

section Congruence

variable {types types' : Types}

theorem allTyped_congr {operands : List Operand}
    (h : ∀ o ∈ operands, operandType types o = operandType types' o) :
    allTyped types operands = allTyped types' operands := by
  unfold allTyped
  induction operands with
  | nil => rfl
  | cons o rest ih =>
    rw [mapM_cons, mapM_cons, h o mem_cons_self, ih fun o' ho' => h o' (mem_cons_of_mem o ho')]

variable {s : Statement} (h : ∀ o ∈ s.operands, operandType types o = operandType types' o)
include h

theorem head?_operandType_congr :
    s.operands.head?.map (operandType types) = s.operands.head?.map (operandType types') := by
  cases hhead : s.operands.head? with
  | none => rfl
  | some o => exact congrArg some (h o (mem_of_mem_head? hhead))

theorem receiver?_operandType_congr :
    s.receiver?.map (operandType types) = s.receiver?.map (operandType types') := by
  unfold Statement.receiver?
  split
  · exact head?_operandType_congr h
  · rfl

theorem allTyped_operands_congr : allTyped types s.operands = allTyped types' s.operands :=
  allTyped_congr h

theorem allTyped_positionalArgs_congr :
    allTyped types s.positionalArgs = allTyped types' s.positionalArgs :=
  allTyped_congr fun o ho => h o (mem_operands_of_mem_positionalArgs ho)

theorem allTyped_keywordArgs_congr :
    allTyped types s.keywordArgs.values = allTyped types' s.keywordArgs.values :=
  allTyped_congr fun o ho => h o (mem_operands_of_mem_keywordArgs ho)

theorem callType_congr (image : Image) (call : CallInfo) :
    callType image types s call = callType image types' s call := by
  have hstatic : ∀ callee, staticCall types s callee = staticCall types' s callee := by
    intro callee
    unfold staticCall
    rw [allTyped_positionalArgs_congr h]
  have hmethod : ∀ name,
      methodCallType image types s name = methodCallType image types' s name := by
    intro name
    unfold methodCallType
    rw [receiver?_operandType_congr h]
  unfold callType
  simp only [hstatic, hmethod]

theorem requestOf_congr (image : Image) (call : CallInfo) (c : Callee) :
    requestOf image types s call c = requestOf image types' s call c := by
  unfold requestOf
  simp only [allTyped_positionalArgs_congr h, allTyped_keywordArgs_congr h]

theorem plan_congr (image : Image) : plan image types s = plan image types' s := by
  have hallocation : ∀ hint,
      allocationType image types s hint = allocationType image types' s hint := by
    intro hint
    unfold allocationType
    rw [allTyped_operands_congr h]
  have hassignment : assignmentType image types s = assignmentType image types' s := by
    unfold assignmentType
    rw [head?_operandType_congr h]
  unfold plan
  simp only [hallocation, hassignment, allTyped_operands_congr h, callType_congr h,
    requestOf_congr h]

end Congruence

end Inference
end Readiness
