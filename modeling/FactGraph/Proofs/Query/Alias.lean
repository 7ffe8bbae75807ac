import FactGraph.Query.Term

/-!
# Names of joined tables

A table is joined under an alias. Some aliases are the same in every query, the others are made of
the name of a qualifier, which can be any text. They are quoted in SQL, which tells them apart from
each other, and from the fixed ones by the first character. **So different aliases are different
names** (`Alias.sql_injective`).

An alias also tells which part of a query it belongs to (`Alias.origin?`).
-/

namespace FactGraph

theorem flatMap_quoted_injective {cs ds : List Char}
    (h : cs.flatMap (fun c => if c = '"' then ['"', '"'] else [c]) =
      ds.flatMap (fun c => if c = '"' then ['"', '"'] else [c])) : cs = ds := by
  -- On the first list. A quote is written as two characters and anything else as one, so the second
  -- list starts with the same character.
  induction cs generalizing ds with
  | nil => cases ds with
    | nil => rfl
    | cons d ds => by_cases hd : d = '"' <;> simp [hd] at h
  | cons c cs ih => cases ds with
    | nil => by_cases hc : c = '"' <;> simp [hc] at h
    | cons d ds =>
      have hsplit : c = d ∧ cs.flatMap (fun c => if c = '"' then ['"', '"'] else [c]) =
          ds.flatMap (fun c => if c = '"' then ['"', '"'] else [c]) := by
        by_cases hc : c = '"' <;> by_cases hd : d = '"' <;> simp [hc, hd] at h
        · exact ⟨hc.trans hd.symm, h⟩
        · exact absurd h.1.symm hd
        · exact ⟨h.1, h.2⟩
      rw [hsplit.1, ih hsplit.2]

theorem toList_quoteName (name : String) :
    (quoteName name).toList =
      '"' :: name.toList.flatMap (fun c => if c = '"' then ['"', '"'] else [c]) ++ ['"'] := by
  simp [quoteName]

theorem quoteName_injective : Function.Injective quoteName := by
  intro a b h
  have hlist := congrArg String.toList h
  rw [toList_quoteName, toList_quoteName, List.cons_append, List.cons_append, List.cons_inj_right,
    List.append_cancel_right_eq] at hlist
  exact String.toList_inj.1 (flatMap_quoted_injective hlist)

namespace Alias

/-- The names that do not come from labels. -/
def fixed : List Alias :=
  [observation, amount, dataset, unitLabel, unitText, subjectLabel, subjectText] ++
    AdminLevel.all.map place

theorem mem_fixed_or (a : Alias) : a ∈ fixed ∨ ∃ part name, a = qualifier part name := by
  cases a with
  | qualifier part name => exact .inr ⟨part, name, rfl⟩
  | place level => cases level <;> exact .inl (by decide)
  | _ => exact .inl (by decide)

theorem qualifier_sql_ne_of_mem_fixed (part : QualifierPart) (name : String) :
    ∀ a ∈ fixed, (qualifier part name).sql ≠ a.sql := by
  have hquote : (qualifier part name).sql.toList.head? = some '"' := by
    simp [sql, toList_quoteName]
  have hplain : ∀ a ∈ fixed, a.sql.toList.head? ≠ some '"' := by decide
  intro a ha h
  exact hplain a ha (h ▸ hquote)

theorem qualifier_sql_injective {part other : QualifierPart} {name label : String}
    (h : (qualifier part name).sql = (qualifier other label).sql) :
    qualifier part name = qualifier other label := by
  have htext := congrArg String.toList (quoteName_injective h)
  cases part <;> cases other <;> simp [QualifierPart.mark] at htext <;>
    rw [String.toList_inj.1 htext]

theorem sql_injective : Function.Injective sql := by
  have hfixed : ∀ a ∈ fixed, ∀ b ∈ fixed, a.sql = b.sql → a = b := by decide
  intro a b h
  obtain ha | ⟨part, name, rfl⟩ := mem_fixed_or a
  · obtain hb | ⟨part, name, rfl⟩ := mem_fixed_or b
    · exact hfixed a ha b hb h
    · exact absurd h.symm (qualifier_sql_ne_of_mem_fixed part name a ha)
  · obtain hb | ⟨other, label, rfl⟩ := mem_fixed_or b
    · exact absurd h (qualifier_sql_ne_of_mem_fixed part name b hb)
    · exact qualifier_sql_injective h

/-- The part that a name belongs to: whether that is fixed, and the owner of its joins. -/
def origin? : Alias → Option (Bool × String)
  | observation => none
  | amount | dataset | unitLabel | unitText => some (true, "base")
  | subjectLabel | subjectText => some (true, "main_subject")
  | place level => some (true, "place_" ++ level.name)
  | qualifier _ name => some (false, name)

end Alias

end FactGraph
