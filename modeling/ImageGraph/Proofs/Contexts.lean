import ImageGraph.Proofs.Mentions

/-!
Expressions with a hole. What is put into the hole is seen by the rest of the expression only through
its value, except that a generator also looks at how its argument is written. So two expressions that
agree in both may stand for each other anywhere.
-/

set_option autoImplicit false

namespace ImageGraph.Expr

/-- An expression with one hole in the place of an operand. -/
inductive Context where
  | hole
  | array (before : List Expr) (inner : Context) (behind : List Expr) (span : Span)
  | call (function : String) (before : List Expr) (inner : Context) (behind : List Expr)
      (span : Span)
  | negation (inner : Context) (span : Span)
  | left (operator : Operator) (inner : Context) (second : Expr) (span : Span)
  | right (operator : Operator) (first : Expr) (inner : Context) (span : Span)

namespace Context

def fill : Context → Expr → Expr
  | hole, inside => inside
  | array before inner behind span, inside =>
      .array (before ++ inner.fill inside :: behind) span
  | call function before inner behind span, inside =>
      .call function (before ++ inner.fill inside :: behind) span
  | negation inner span, inside => .negation (inner.fill inside) span
  | left operator inner second span, inside => .binary operator (inner.fill inside) second span
  | right operator first inner span, inside => .binary operator first (inner.fill inside) span

def others : Context → List Expr
  | hole => []
  | array before inner behind _ | call _ before inner behind _ => before ++ inner.others ++ behind
  | negation inner _ => inner.others
  | left _ inner second _ => inner.others ++ [second]
  | right _ first inner _ => first :: inner.others

def identifiers (context : Context) : List String := context.others.flatMap Expr.identifiers

theorem count_identifiers_around {filled inside : Expr} {others : List Expr} {name : String}
    (counted : filled.identifiers.count name =
      inside.identifiers.count name + (others.flatMap Expr.identifiers).count name)
    (before behind : List Expr) :
    ((before ++ filled :: behind).flatMap Expr.identifiers).count name =
      inside.identifiers.count name +
        ((before ++ others ++ behind).flatMap Expr.identifiers).count name := by
  simp only [List.flatMap_append, List.flatMap_cons, List.count_append, counted]
  omega

/-- An expression in a context mentions what it mentions itself and what the context mentions. -/
theorem count_identifiers_fill (context : Context) (inside : Expr) (name : String) :
    (context.fill inside).identifiers.count name =
      inside.identifiers.count name + context.identifiers.count name := by
  have operands (expression : Expr) (unnamed : expression.name? = none) :
      expression.identifiers = expression.operands.flatMap Expr.identifiers := by
    rw [identifiers_eq, unnamed]
    rfl
  unfold identifiers
  induction context with
  | hole => simp [fill, others]
  | array before inner behind span induction =>
      rw [fill, operands _ rfl]
      exact count_identifiers_around induction before behind
  | call function before inner behind span induction =>
      rw [fill, operands _ rfl]
      exact count_identifiers_around induction before behind
  | negation inner span induction =>
      rw [fill, operands _ rfl]
      simpa only [Expr.operands, others, List.nil_append, List.append_nil] using
        count_identifiers_around induction [] []
  | left operator inner second span induction =>
      rw [fill, operands _ rfl]
      exact count_identifiers_around induction [] [second]
  | right operator first inner span induction =>
      rw [fill, operands _ rfl]
      simpa only [Expr.operands, others, List.singleton_append, List.append_nil] using
        count_identifiers_around induction [first] []

theorem identifiers_fill (context : Context) (inside : Expr) :
    (context.fill inside).identifiers.Perm (inside.identifiers ++ context.identifiers) := by
  rw [List.perm_iff_count]
  intro name
  rw [context.count_identifiers_fill, List.count_append]

section Scopes

variable {change : Home → Home} {names other : Registry} {defaults changed : Defaults}
  {expression again : Expr}

/-- Two expressions that may stand for each other, each in its own scope. -/
structure Interchanges (change : Home → Home) (names other : Registry) (defaults changed : Defaults)
    (expression again : Expr) : Prop where
  value : Corresponds change (.graph names defaults) (.graph other changed) expression again
  written : writtenResolution? other changed again = writtenResolution? names defaults expression

theorem interchanges_self (fresh : Home.KeepsLoose change)
    (bound : ∀ name ∈ expression.identifiers,
      other.get? name = (names.get? name).map (Image.mapHomes change)) :
    Interchanges change names other defaults defaults expression expression := by
  have agrees : expression.Agrees change names other defaults defaults := ⟨bound, fun _ => rfl⟩
  exact ⟨expression.corresponds fresh rfl agrees, agrees.written fun _ => rfl⟩

theorem interchange_around {before behind : List Expr}
    (inner : Interchanges change names other defaults changed expression again)
    (around : ∀ part ∈ before ++ behind, Interchanges change names other defaults changed part part) :
    List.Forall₂ (Interchanges change names other defaults changed) (before ++ expression :: behind)
      (before ++ again :: behind) := by
  rw [List.forall_mem_append] at around
  exact List.rel_append (List.forall₂_same.2 around.1) (.cons inner (List.forall₂_same.2 around.2))

/-- Expressions that may stand for each other may do so in every context. -/
theorem fill_interchanges (fresh : Home.KeepsLoose change)
    (constant : changed.constant = defaults.constant) (context : Context)
    (inside : Interchanges change names other defaults changed expression again)
    (around : ∀ part ∈ context.others, Interchanges change names other defaults changed part part) :
    Interchanges change names other defaults changed (context.fill expression)
      (context.fill again) := by
  induction context with
  | hole => exact inside
  | array before inner behind span induction =>
      simp only [others, List.forall_mem_append] at around
      have items := interchange_around (induction around.1.2)
        (List.forall_mem_append.2 ⟨around.1.1, around.2⟩)
      exact ⟨array_corresponds (items.imp fun _ _ both => both.value), rfl⟩
  | call function before inner behind span induction =>
      simp only [others, List.forall_mem_append] at around
      have arguments := interchange_around (induction around.1.2)
        (List.forall_mem_append.2 ⟨around.1.1, around.2⟩)
      refine ⟨call_corresponds fresh constant (arguments.imp fun _ _ both => both.value) ?_, rfl⟩
      exact fun _ _ => arguments.imp fun _ _ both => both.written
  | negation inner span induction =>
      exact ⟨negation_corresponds (induction around).value, rfl⟩
  | left operator inner second span induction =>
      simp only [others, List.forall_mem_append, List.forall_mem_singleton] at around
      obtain ⟨inInner, inSecond⟩ := around
      exact ⟨binary_corresponds fresh constant operator (induction inInner).value inSecond.value, rfl⟩
  | right operator first inner span induction =>
      simp only [others, List.forall_mem_cons] at around
      obtain ⟨inFirst, inInner⟩ := around
      exact ⟨binary_corresponds fresh constant operator inFirst.value (induction inInner).value, rfl⟩

end Scopes

end Context

end ImageGraph.Expr
