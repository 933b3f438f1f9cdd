import BlockRobot.Proofs.Program.Nodes
import BlockRobot.Proofs.Run.Steps

/-!
# The statements that a run comes to

A statement gets into the queue when one that nests it is expanded, or a call of the function that it
stands in. So a property that goes over from a statement to those holds of all that a machine ever
queues (`Steps.queued`).
-/

namespace BlockRobot

namespace Machine

variable {program : Program} {m m₁ : Machine} {w w₁ : World} {Q : Statement → Prop}

theorem mem_nodesIn {t : Statement} {env env' : Bindings} {ss : List Statement} :
    .node t env' ∈ nodesIn env ss ↔ t ∈ ss ∧ env' = env := by
  simp only [nodesIn, List.mem_map, Instruction.node.injEq]
  constructor
  · rintro ⟨s, hs, rfl, rfl⟩
    exact ⟨hs, rfl⟩
  · rintro ⟨ht, rfl⟩
    exact ⟨t, ht, rfl, rfl⟩

theorem mem_of_mem_rounds {name : Option String} {span : Span Float} {env env' : Bindings}
    {body : List Statement} {count : Nat} {t : Statement}
    (h : .node t env' ∈ rounds name span env body count) : t ∈ body := by
  obtain ⟨i, _, hi⟩ := List.mem_flatMap.mp h
  exact (mem_nodesIn.mp hi).1

theorem mem_of_mem_branch {w : World} {env : Bindings} {elseBody : List Statement} {t : Statement}
    {clauses : List (Condition × List Statement)} (h : t ∈ branch w env elseBody clauses) :
    t ∈ clauses.flatMap Prod.snd ++ elseBody := by
  induction clauses with
  | nil => exact h
  | cons clause rest ih =>
    rw [List.flatMap_cons, List.append_assoc]
    simp only [branch] at h
    split at h
    · exact List.mem_append_left _ h
    · exact List.mem_append_right _ (ih h)

theorem expansion_nodes {s t : Statement} {env env' : Bindings} {last : Option Kind} {x : Expansion}
    (h : expansion program w env last s = .ok x) (ht : .node t env' ∈ x.children) :
    t = s ∨ t ∈ s.nested ∨
      ∃ name f, s = .call name ∧ program.function? name = some f ∧ t ∈ f.body := by
  cases Expands.of_eq h with
  | ifElse =>
    have hb := mem_of_mem_branch (mem_nodesIn.mp ht).1
    rw [List.flatMap_cons] at hb
    exact .inr (.inl hb)
  | whileAgain =>
    rcases List.mem_append.mp (mem_nodesIn.mp ht).1 with hb | hb
    · exact .inr (.inl hb)
    · exact .inl (List.mem_singleton.mp hb)
  | range => exact .inr (.inl (mem_of_mem_rounds ht))
  | call defined => exact .inr (.inr ⟨_, _, rfl, defined, (mem_nodesIn.mp ht).1⟩)
  | whileDone | rangeSkipped | skipped => cases ht
  | acts => cases List.eq_of_mem_replicate ht

/-- A property of statements that goes over to what they nest and to what they call. -/
structure Hereditary (program : Program) (Q : Statement → Prop) : Prop where
  nested : ∀ {s t : Statement}, Q s → t ∈ s.nested → Q t
  called : ∀ {name : String} {f : Function} {t : Statement}, Q (.call name) →
    program.function? name = some f → t ∈ f.body → Q t

theorem hereditary_nodes (program : Program) : Hereditary program (· ∈ program.nodes) where
  nested hs ht := Program.mem_nodes_of_nested hs ht
  called _ hf ht := Program.mem_nodes_of_call hf ht

def Queued (Q : Statement → Prop) (m : Machine) : Prop :=
  ∀ s env, .node s env ∈ m.pending.items → Q s

theorem queued_new {limits : Limits} (h : ∀ s ∈ program.actions, Q s) :
    (Machine.new program limits).Queued Q := by
  intro s env hs
  exact h s (mem_nodesIn.mp hs).1

theorem Queued.front {s : Statement} {env : Bindings} {rest : Queue Instruction} (h : m.Queued Q)
    (hp : m.pending.pop? = some (.node s env, rest)) : Q s := by
  refine h s env ?_
  rw [Queue.pop?_eq_some_iff.mp hp]
  exact List.mem_cons_self

theorem Queued.rest {i : Instruction} {rest : Queue Instruction} (h : m.Queued Q)
    (hp : m.pending.pop? = some (i, rest)) : ∀ s env, .node s env ∈ rest.items → Q s := by
  intro s env hs
  refine h s env ?_
  rw [Queue.pop?_eq_some_iff.mp hp]
  exact List.mem_cons_of_mem _ hs

theorem Step.queued {a? : Option Action} (hQ : Hereditary program Q)
    (h : Step program m w a? m₁ w₁) (hm : m.Queued Q) : m₁.Queued Q := by
  cases h with
  | act front _ _ => exact hm.rest front
  | @node s env rest x front _ expands _ =>
    intro t env' ht
    rcases List.mem_append.mp ht with ht | ht
    · rcases expansion_nodes expands ht with rfl | ht | ⟨name, f, rfl, hf, ht⟩
      · exact hm.front front
      · exact hQ.nested (hm.front front) ht
      · exact hQ.called (hm.front front) hf ht
    · exact hm.rest front t env' ht

theorem Steps.queued {as : List Action} (hQ : Hereditary program Q) (h : Steps program m w as m₁ w₁)
    (hm : m.Queued Q) : m₁.Queued Q :=
  h.invariant (I := fun m _ => m.Queued Q) (fun hstep hI => hstep.queued hQ hI) hm

/-! ## Failing at a statement -/

/-- A run fails with `f` because expanding a statement does, when the run has come to it. -/
inductive FailsAt (program : Program) (m : Machine) (w : World) (s : Statement) (f : Failure) : Prop where
  | intro {as : List Action} {m₁ : Machine} {w₁ : World} {env : Bindings} {rest : Queue Instruction}
      (steps : Steps program m w as m₁ w₁) (front : m₁.pending.pop? = some (.node s env, rest))
      (stops : (m₁.entered rest s).expand program w₁ env s = .error f)
      (fails : (m.run program w).failure = some f)

/-- A failure that no limit and no action is to blame for has a statement of the program to blame. -/
theorem exists_failsAt {limits : Limits} {f : Failure}
    (hf : ((Machine.new program limits).run program w).failure = some f)
    (hlimit : f.error.isLimit = false) (hrefused : ∀ r, f.error ≠ .refused r) :
    ∃ s ∈ program.nodes, FailsAt program (.new program limits) w s f ∧
      ∃ w₁ env last, Expands program w₁ env last s (.error f) := by
  obtain ⟨m₁, hsteps, hhalt⟩ := exists_steps_halt program (.new program limits) w
  -- At the halt the queue still holds statements of the program only.
  have hqueued : m₁.Queued (· ∈ program.nodes) :=
    hsteps.queued (hereditary_nodes program)
      (queued_new fun s hs => Program.mem_nodes_of_body List.mem_cons_self hs)
  rw [hf] at hhalt
  generalize ((Machine.new program limits).run program w).machine = m₂ at hhalt
  cases hhalt with
  | stepLimit => cases hlimit
  | refused => exact absurd rfl (hrefused _)
  | limited _ _ _ _ _ limit => rw [limit] at hlimit; cases hlimit
  | @failed s env rest _ front _ expands =>
    have hstops := expand_failed (m := m₁.entered rest s) expands
    exact ⟨s, hqueued.front front, .intro hsteps front hstops hf, _, _, _, .of_eq expands⟩

end Machine

end BlockRobot
