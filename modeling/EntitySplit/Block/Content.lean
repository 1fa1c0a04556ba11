import EntitySplit.Lexical.Matching
import EntitySplit.Lexical.Trivia
import EntitySplit.Lexical.Identifier
import EntitySplit.Text.Blank

namespace EntitySplit

namespace Block

/-- What a block says: the entity type, the lambda parameter and the statements
    of the lambda's body, read from the `<` of the type argument to the `;` of
    the statement. -/
structure Content where
  /-- The type argument as written, possibly qualified, without the white space
      around it. -/
  typeName : Text
  parameterName : Text
  /-- The text between the braces of the body. -/
  statements : Text
  deriving DecidableEq, Repr

open Lexical

/-- The parameter of a lambda, bare or in parentheses, and what follows it.
    White space and comments may stand within the parentheses. -/
def parameter? (t : Text) : Option (Text × Text) :=
  match Text.after? ['('] t with
  | none => identifier? t
  | some t =>
    (identifier? (skipTrivia t)).bind fun (name, t) =>
      (Text.after? [')'] (skipTrivia t)).map fun t => (name, t)

namespace Content

/-- Reads `<type>(parameter => { statements });` and gives what follows it,
    with white space and comments between any two of the parts. None if a part
    is missing, or if the type is empty but for white space. -/
def read? (t : Text) : Option (Content × Text) := do
  let (argument, t) ← matching? '<' '>' t
  let typeName := Text.trim argument
  if typeName.isEmpty then none
  let t ← Text.after? ['('] (skipTrivia t)
  let (parameterName, t) ← parameter? (skipTrivia t)
  let t ← Text.after? ['=', '>'] (skipTrivia t)
  let (statements, t) ← matching? '{' '}' (skipTrivia t)
  let t ← Text.after? [')'] (skipTrivia t)
  let t ← Text.after? [';'] (skipTrivia t)
  return ({ typeName, parameterName, statements }, t)

private theorem exists_append_trivia {mark t rest : Text}
    (h : Text.after? mark (skipTrivia t) = some rest) :
    ∃ head, t = head ++ mark ++ rest := by
  obtain ⟨trivia, heq⟩ := exists_append_skipTrivia t
  exact ⟨trivia, by rw [List.append_assoc, ← Text.eq_append_of_after? h, ← heq]⟩

theorem exists_append_of_parameter? {t name rest : Text} (h : parameter? t = some (name, rest)) :
    ∃ head, t = head ++ rest := by
  unfold parameter? at h
  split at h
  · exact ⟨name, eq_append_of_identifier? h⟩
  · next after hparen =>
    simp only [Option.bind_eq_some_iff, Option.map_eq_some_iff, Prod.exists, Prod.mk.injEq] at h
    obtain ⟨bare, u, hname, v, hclose, -, rfl⟩ := h
    obtain ⟨trivia, htrivia⟩ := exists_append_skipTrivia after
    obtain ⟨head, hhead⟩ := exists_append_trivia hclose
    refine ⟨'(' :: (trivia ++ bare ++ head ++ [')']), ?_⟩
    rw [Text.eq_append_of_after? hparen, htrivia, eq_append_of_identifier? hname, hhead]
    simp

/-- What is read ends with its `;` and is more than the `<`, so a search that
    goes on behind it comes to an end. -/
theorem exists_append_of_read? {t rest : Text} {content : Content}
    (h : read? t = some (content, rest)) :
    ∃ head, t = '<' :: (head ++ ';' :: rest) := by
  simp only [read?, Option.bind_eq_bind, Option.bind_eq_some_iff, Prod.exists, Option.pure_def] at h
  obtain ⟨argument, t₁, h₁, h⟩ := h
  split at h
  · simp at h
  · simp only [Option.bind_eq_some_iff, Prod.exists, Option.some.injEq, Prod.mk.injEq] at h
    obtain ⟨t₂, h₂, name, t₃, h₃, t₄, h₄, statements, t₅, h₅, t₆, h₆, t₇, h₇, -, rfl⟩ := h
    obtain ⟨a₂, e₂⟩ := exists_append_trivia h₂
    obtain ⟨a₃, e₃⟩ := exists_append_skipTrivia t₂
    obtain ⟨b₃, f₃⟩ := exists_append_of_parameter? h₃
    obtain ⟨a₄, e₄⟩ := exists_append_trivia h₄
    obtain ⟨a₅, e₅⟩ := exists_append_skipTrivia t₄
    obtain ⟨a₆, e₆⟩ := exists_append_trivia h₆
    obtain ⟨a₇, e₇⟩ := exists_append_trivia h₇
    refine ⟨argument ++ '>' :: (a₂ ++ ['('] ++ (a₃ ++ (b₃ ++ (a₄ ++ ['=', '>'] ++ (a₅ ++
      '{' :: (statements ++ '}' :: (a₆ ++ [')'] ++ a₇))))))), ?_⟩
    rw [eq_cons_append_of_matching? h₁, e₂, e₃, f₃, e₄, e₅, eq_cons_append_of_matching? h₅, e₆, e₇]
    simp

theorem length_lt_of_read? {t rest : Text} {content : Content}
    (h : read? ('<' :: t) = some (content, rest)) :
    rest.length < t.length := by
  obtain ⟨head, heq⟩ := exists_append_of_read? h
  obtain rfl := (List.cons.inj heq).2
  simp only [List.length_append, List.length_cons]
  omega

/-- The entity's own name: the last segment of the type name, without type
    arguments. The type arguments are what begins with the first `<`, with all
    that stands behind them. -/
def simpleName (content : Content) : Text :=
  let name := Text.trim (content.typeName.takeWhile (· != '<'))
  (name.reverse.takeWhile fun c => c != '.' && c != ':').reverse

end Content

end Block

end EntitySplit
