import EntitySplit.Header

namespace EntitySplit

namespace Header

/-- The directives of pieces, each with the text from the beginning up to it,
    `passed` being what stands before the pieces. -/
def placed (passed : Text) : List (Text × Text) → List (Text × Text)
  | [] => []
  | (lead, directive) :: others =>
    (passed ++ lead, directive) :: placed (passed ++ lead ++ directive) others

/-- The directives of a document, each with the text before it, which tells
    where it stands. -/
def directives (document : Text) : List (Text × Text) :=
  placed [] (cut document).1

theorem map_placed (passed : Text) (pieces : List (Text × Text)) :
    (placed passed pieces).map (·.2) = pieces.map (·.2) := by
  induction pieces generalizing passed with
  | nil => rfl
  | cons piece pieces ih => rw [placed, List.map_cons, List.map_cons, ih]

theorem map_directives (document : Text) : (directives document).map (·.2) = usings document :=
  map_placed [] _

section

variable {document passed before kept directive after head tail t : Text} {lineBegins : Bool}
  {piece : Text × Text}

theorem getLast?_of_directive? (h : directive? t = some (directive, after)) :
    directive.getLast? = some ';' := by
  unfold directive? at h
  split at h
  · split at h
    · split at h
      · obtain ⟨rfl, -⟩ := Prod.mk.inj (Option.some.inj h)
        exact List.getLast?_concat
      · exact absurd h (by simp)
    · exact absurd h (by simp)
  · exact absurd h (by simp)

/-- The pieces of a text and what follows them are the text, with what was kept
    in front. -/
theorem flatMap_cutFrom (lineBegins : Bool) (kept t : Text) :
    (cutFrom lineBegins kept t).1.flatMap (fun piece => piece.1 ++ piece.2) ++
        (cutFrom lineBegins kept t).2 =
      kept.reverse ++ t := by
  fun_induction cutFrom lineBegins kept t with
  | case1 => simp
  | case2 lineBegins kept c t directive after hfound rest ih =>
    obtain ⟨-, hread⟩ := Option.dite_none_right_eq_some.1 hfound
    rw [List.reverse_nil, List.nil_append] at ih
    rw [(eq_append_of_directive? hread).1, List.flatMap_cons]
    simp only [List.append_assoc]
    rw [ih]
  | case3 lineBegins kept c t hnone ih =>
    rw [ih, List.reverse_cons, List.append_assoc, List.singleton_append]

theorem getLast?_of_mem_cutFrom (hmem : piece ∈ (cutFrom lineBegins kept t).1) :
    piece.2.getLast? = some ';' := by
  fun_induction cutFrom lineBegins kept t with
  | case1 => exact absurd hmem List.not_mem_nil
  | case2 lineBegins kept c t directive after hfound rest ih =>
    obtain ⟨-, hread⟩ := Option.dite_none_right_eq_some.1 hfound
    rcases List.mem_cons.1 hmem with rfl | hmem
    · exact getLast?_of_directive? hread
    · exact ih hmem
  | case3 lineBegins kept c t hnone ih => exact ih hmem

/-- A directive is cut out where a line begins. `hbegins` says that the flag is
    set only behind a line feed or at the beginning, and the induction follows
    the cutting. -/
theorem exists_of_mem_placed
    (hbegins : lineBegins = true → ∀ c ∈ (passed ++ kept.reverse).getLast?, c = '\n')
    (hmem : (before, directive) ∈ placed passed (cutFrom lineBegins kept t).1) :
    ∃ after, passed ++ kept.reverse ++ t = before ++ (directive ++ after) ∧
      directive? (directive ++ after) = some (directive, after) ∧
        ∀ c ∈ before.getLast?, c = '\n' := by
  fun_induction cutFrom lineBegins kept t generalizing passed with
  | case1 => exact absurd hmem List.not_mem_nil
  | case2 lineBegins kept c t found after hfound rest =>
    rename_i ih
    obtain ⟨hline, hread⟩ := Option.dite_none_right_eq_some.1 hfound
    obtain ⟨heq, -⟩ := eq_append_of_directive? hread
    rcases List.mem_cons.1 hmem with hhere | hbehind
    · obtain ⟨rfl, rfl⟩ := Prod.mk.inj hhere
      exact ⟨after, by rw [heq], heq ▸ hread, hbegins hline⟩
    · obtain ⟨behind, hafter, hdirective, hfeed⟩ := ih (by simp) hbehind
      refine ⟨behind, ?_, hdirective, hfeed⟩
      rw [← hafter, heq]
      simp
  | case3 lineBegins kept c t hnone ih =>
    have hbegins' : decide (c = '\n') = true → ∀ d ∈ (passed ++ (c :: kept).reverse).getLast?,
      d = '\n' := by
      intro hc d hd
      rw [List.reverse_cons, ← List.append_assoc, List.getLast?_concat] at hd
      rw [← Option.some.inj hd]
      exact of_decide_eq_true hc
    obtain ⟨after, heq, hdirective, hfeed⟩ := ih hbegins' hmem
    refine ⟨after, ?_, hdirective, hfeed⟩
    rw [← heq, List.reverse_cons]
    simp

/-- A directive of a document stands at the beginning of a line and is
    recognised there as what it is. -/
theorem exists_of_mem_directives (hmem : (before, directive) ∈ directives document) :
    ∃ after, document = before ++ (directive ++ after) ∧
      directive? (directive ++ after) = some (directive, after) ∧
      ∀ c ∈ before.getLast?, c = '\n' :=
  exists_of_mem_placed (by simp) hmem

/-- A text cut behind its last directive is the two parts again. -/
theorem eq_append_of_splitAfterUsings? (h : splitAfterUsings? t = some (head, tail)) :
    t = head ++ tail := by
  have hcut := flatMap_cutFrom true [] t
  unfold splitAfterUsings? cut at h
  split at h
  · exact absurd h (by simp)
  · next pieces rest _ heq =>
    rw [heq] at hcut
    obtain ⟨rfl, rfl⟩ := Prod.mk.inj (Option.some.inj h)
    exact hcut.symm

/-- The first of the two parts ends with the semicolon of that directive, so
    what is put in there begins right behind it. -/
theorem getLast?_of_splitAfterUsings? (h : splitAfterUsings? t = some (head, tail)) :
    head.getLast? = some ';' := by
  unfold splitAfterUsings? cut at h
  split at h
  · exact absurd h (by simp)
  · next pieces rest hne heq =>
    obtain ⟨rfl, rfl⟩ := Prod.mk.inj (Option.some.inj h)
    obtain ⟨init, last, hpieces⟩ := (List.eq_nil_or_concat pieces).resolve_left hne
    rw [List.concat_eq_append] at hpieces
    have hmem : last ∈ (cutFrom true [] t).1 := by
      rw [heq, hpieces]
      exact List.mem_append_right init (List.mem_singleton_self last)
    rw [hpieces, List.flatMap_append, List.flatMap_singleton, ← List.append_assoc,
      List.getLast?_append, getLast?_of_mem_cutFrom hmem, Option.some_or]

end

end Header

end EntitySplit
