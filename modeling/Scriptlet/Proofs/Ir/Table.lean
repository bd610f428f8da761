import Scriptlet.Ir.Operators

/-!
# The operator table

What the table holds for a name, in terms of the signatures that were added: the language's own operators have the
signatures that `OperatorTable.builtinSignatures` lists for them, in that order (`get?_builtins`), and a function of
the program is added beside what was there (`get?_define`).
-/

namespace Scriptlet.OperatorTable

variable {name other : String} {entries : List (String × Operator)} {f : Option Operator → Operator}

/-! ### Changing one entry -/

/-- The names are in ascending order. -/
def Ascending (entries : List (String × Operator)) : Prop := entries.Pairwise fun a b => a.1 < b.1

private theorem mem_alterEntries {e : String × Operator} (h : e ∈ alterEntries name f entries) :
    e.1 = name ∨ e ∈ entries := by
  induction entries with
  | nil => simp_all [alterEntries]
  | cons x entries ih =>
    obtain ⟨n, op⟩ := x
    unfold alterEntries at h
    split at h
    · next hn =>
      rcases List.mem_cons.1 h with rfl | h
      · exact Or.inl hn
      · exact Or.inr (List.mem_cons_of_mem _ h)
    · split at h
      · rcases List.mem_cons.1 h with rfl | h
        · exact Or.inl rfl
        · exact Or.inr h
      · rcases List.mem_cons.1 h with rfl | h
        · exact Or.inr List.mem_cons_self
        · exact (ih h).imp_right (List.mem_cons_of_mem _)

/-- An operator that is added keeps the table in order. -/
theorem Ascending.alterEntries (h : Ascending entries) (name : String) (f : Option Operator → Operator) :
    Ascending (alterEntries name f entries) := by
  induction entries with
  | nil => exact List.pairwise_singleton _ _
  | cons x entries ih =>
    obtain ⟨n, op⟩ := x
    obtain ⟨hhead, htail⟩ := List.pairwise_cons.1 h
    unfold OperatorTable.alterEntries
    by_cases hn : n = name
    · rw [if_pos hn]
      exact List.pairwise_cons.2 ⟨hhead, htail⟩
    · rw [if_neg hn]
      by_cases hlt : name < n
      · rw [if_pos hlt]
        refine List.pairwise_cons.2 ⟨fun e he => ?_, h⟩
        rcases List.mem_cons.1 he with rfl | he
        · exact hlt
        · exact String.lt_trans hlt (hhead e he)
      · rw [if_neg hlt]
        refine List.pairwise_cons.2 ⟨fun e he => ?_, ih htail⟩
        rcases mem_alterEntries he with he | he
        · rw [he]
          exact Std.lt_of_le_of_ne (String.not_lt.1 hlt) hn
        · exact hhead e he

/-- A name before the first of an ascending list is not in it. -/
private theorem lookup_of_lt {n : String} {op : Operator} (h : Ascending ((n, op) :: entries)) (hlt : name < n) :
    ((n, op) :: entries).lookup name = none := by
  rw [List.lookup_eq_none_iff]
  intro e he
  have hle : name < e.1 := by
    rcases List.mem_cons.1 he with rfl | he
    · exact hlt
    · exact String.lt_trans hlt ((List.pairwise_cons.1 h).1 e he)
  simp only [bne_iff_ne, ne_eq]
  rintro rfl
  exact String.lt_irrefl _ hle

private theorem lookup_cons_eq (n other : String) (op : Operator) (entries : List (String × Operator)) :
    ((n, op) :: entries).lookup other = if other = n then some op else entries.lookup other := by
  by_cases h : other = n
  · simp [h]
  · rw [List.lookup_cons, beq_false_of_ne h, if_neg h]

private theorem lookup_alterEntries (h : Ascending entries ∨ entries.lookup name = none) (other : String)
    (f : Option Operator → Operator) : (alterEntries name f entries).lookup other =
      if other = name then some (f (entries.lookup name)) else entries.lookup other := by
  induction entries with
  | nil => exact lookup_cons_eq _ _ _ _
  | cons x entries ih =>
    obtain ⟨n, op⟩ := x
    unfold alterEntries
    by_cases hn : n = name
    · subst hn
      rw [if_pos rfl, lookup_cons_eq, lookup_cons_eq, lookup_cons_eq, if_pos rfl]
      by_cases ho : other = n
      · rw [if_pos ho, if_pos ho]
      · rw [if_neg ho, if_neg ho, if_neg ho]
    · rw [if_neg hn]
      by_cases hlt : name < n
      · have hnone : ((n, op) :: entries).lookup name = none := by
          rcases h with h | h
          · exact lookup_of_lt h hlt
          · exact h
        rw [if_pos hlt, hnone]
        exact lookup_cons_eq _ _ _ _
      · -- the first entry is for another name, so the assumption holds of the others as well
        have htail : Ascending entries ∨ entries.lookup name = none := by
          rw [lookup_cons_eq, if_neg (Ne.symm hn)] at h
          exact h.imp_left fun h => (List.pairwise_cons.1 h).2
        rw [if_neg hlt, lookup_cons_eq, lookup_cons_eq, lookup_cons_eq, ih htail, if_neg (Ne.symm hn)]
        by_cases ho : other = n
        · subst ho
          rw [if_pos rfl, if_pos rfl, if_neg hn]
        · rw [if_neg ho, if_neg ho]

/-! ### The operators of the language -/

/-- The signatures that a list gives for a name. -/
def signaturesOf (name : String) (sigs : List (String × Signature)) : List Signature :=
  (sigs.filter (·.1 = name)).map Prod.snd

/-- What a table of the language's operators holds for a name with these signatures. -/
def ofSignatures : List Signature → Option Operator
  | [] => none
  | s :: ss => some ⟨s :: ss, false⟩

/-- The table holds for every name the signatures that the list gives for it. -/
private structure Lists (t : OperatorTable) (sigs : List (String × Signature)) : Prop where
  ascending : Ascending t.entries
  get? : ∀ name, t.get? name = ofSignatures (signaturesOf name sigs)

private theorem ofSignatures_append (ss : List Signature) (s : Signature) :
    ofSignatures (ss ++ [s]) = some ⟨((ofSignatures ss).map Operator.alternatives).getD [] ++ [s], false⟩ := by
  cases ss <;> rfl

private theorem Lists.addAlternative {t : OperatorTable} {sigs : List (String × Signature)} (h : t.Lists sigs)
    (x : String × Signature) : (t.addAlternative x.1 x.2).Lists (sigs ++ [x]) where
  ascending := h.ascending.alterEntries _ _
  get? name := by
    unfold OperatorTable.addAlternative OperatorTable.get?
    rw [lookup_alterEntries (Or.inl h.ascending)]
    by_cases hn : name = x.1
    · subst hn
      have hs : signaturesOf x.1 (sigs ++ [x]) = signaturesOf x.1 sigs ++ [x.2] := by simp [signaturesOf]
      have hg : t.entries.lookup x.1 = _ := h.get? x.1
      rw [if_pos rfl, hs, ofSignatures_append, hg]
    · have hs : signaturesOf name (sigs ++ [x]) = signaturesOf name sigs := by
        simp [signaturesOf, Ne.symm hn]
      rw [if_neg hn, hs]
      exact h.get? name

private theorem Lists.foldl {t : OperatorTable} {sigs : List (String × Signature)} (h : t.Lists sigs)
    (more : List (String × Signature)) :
    (more.foldl (fun t x => t.addAlternative x.1 x.2) t).Lists (sigs ++ more) := by
  induction more generalizing t sigs with
  | nil => rwa [List.append_nil]
  | cons x more ih =>
    rw [show sigs ++ x :: more = sigs ++ [x] ++ more by simp]
    exact ih (h.addAlternative x)

private theorem lists_builtins : Lists builtins builtinSignatures := by
  have h : Lists empty [] := ⟨List.Pairwise.nil, fun _ => rfl⟩
  exact h.foldl builtinSignatures

/-- The table of the language is in order. -/
theorem ascending_builtins : Ascending builtins.entries := lists_builtins.ascending

/-- The language's own operators have the signatures listed for them. -/
theorem get?_builtins (name : String) : builtins.get? name = ofSignatures (signaturesOf name builtinSignatures) :=
  lists_builtins.get? name

/-! ### Functions of the program -/

/-- A function with a new name is added, and nothing else changes. -/
theorem get?_define {t : OperatorTable} (h : t.contains name = false) (s : Signature) (other : String) :
    ((t.define? name s).getD t).get? other = if other = name then some ⟨[s], true⟩ else t.get? other := by
  have hn : t.entries.lookup name = none := by
    simpa [contains, get?] using h
  unfold define?
  rw [if_neg (by simp [h])]
  have ha := lookup_alterEntries (Or.inr hn) other fun _ => ⟨[s], true⟩
  exact ha

end Scriptlet.OperatorTable
