/-!
# Bindings in order

Names bound to values, in the order in which the names were first bound. Binding a
bound name again keeps its place.
-/

namespace YololChip.Bindings

variable {α : Type}

/-- The value bound to a name. Of several bindings of a name the first counts. -/
def find? (name : String) : List (String × α) → Option α
  | [] => none
  | (key, value) :: rest => if key = name then some value else find? name rest

/-- Binds a name: in its place if it has one, and else at the end. So the order is that in which
names were bound for the first time. -/
def put (name : String) (value : α) : List (String × α) → List (String × α)
  | [] => [(name, value)]
  | (key, old) :: rest =>
    if key = name then (key, value) :: rest else (key, old) :: put name value rest

/-- Binds all names of the second list in turn, so of a name in both the later value counts at
the earlier place. -/
def putAll (bindings : List (String × α)) (more : List (String × α)) : List (String × α) :=
  more.foldl (fun all entry => put entry.1 entry.2 all) bindings

def names (bindings : List (String × α)) : List String := bindings.map Prod.fst

/-- What a name reads as is bound to it. Of a name that is bound twice the later value is not what
it reads as, so the converse asks for names that are bound once. -/
theorem mem_of_find? {name : String} {value : α} {bindings : List (String × α)}
    (found : find? name bindings = some value) : (name, value) ∈ bindings := by
  induction bindings with
  | nil => contradiction
  | cons entry rest inductionHypothesis =>
    obtain ⟨key, first⟩ := entry
    rw [find?] at found
    split at found
    · next same =>
      obtain rfl := Option.some.inj found
      exact same ▸ List.mem_cons_self
    · exact List.mem_cons_of_mem _ (inductionHypothesis found)

/-- A name reads as what it was last bound to. -/
@[simp] theorem find?_put_self (name : String) (value : α) (bindings : List (String × α)) :
    find? name (put name value bindings) = some value := by
  induction bindings with
  | nil => simp [put, find?]
  | cons entry rest ih =>
    obtain ⟨key, old⟩ := entry
    by_cases same : key = name <;> simp [put, find?, same, ih]

/-- Binding a name leaves all others as they were. -/
theorem find?_put_of_ne {name other : String} (distinct : name ≠ other) (value : α)
    (bindings : List (String × α)) :
    find? other (put name value bindings) = find? other bindings := by
  induction bindings with
  | nil => simp [put, find?, distinct]
  | cons entry rest ih =>
    obtain ⟨key, old⟩ := entry
    by_cases same : key = name
    · subst same
      simp [put, find?, distinct]
    · simp [put, find?, same, ih]

/-- Binding a name adds a binding or takes the place of one. -/
theorem eq_or_mem_of_mem_put {name : String} {value : α} {bindings : List (String × α)}
    {entry : String × α} (member : entry ∈ put name value bindings) :
    entry.2 = value ∨ entry ∈ bindings := by
  induction bindings with
  | nil =>
    rw [put, List.mem_singleton] at member
    exact .inl (by rw [member])
  | cons first rest ih =>
    obtain ⟨key, old⟩ := first
    rw [put] at member
    split at member
    · rcases List.mem_cons.mp member with rfl | later
      · exact .inl rfl
      · exact .inr (List.mem_cons_of_mem _ later)
    · rcases List.mem_cons.mp member with rfl | later
      · exact .inr List.mem_cons_self
      · exact (ih later).imp_right (List.mem_cons_of_mem _)

/-- A name that is not bound yet is bound at the end. -/
theorem put_of_not_mem {name : String} {value : α} {bindings : List (String × α)}
    (fresh : name ∉ names bindings) : put name value bindings = bindings ++ [(name, value)] := by
  induction bindings with
  | nil => rfl
  | cons entry rest ih =>
    obtain ⟨key, old⟩ := entry
    simp only [names, List.map_cons, List.mem_cons, not_or] at fresh
    simp [put, Ne.symm fresh.1, ih fresh.2]

/-- Binding a bound name again keeps the names and their order. -/
theorem names_put_of_mem {name : String} {value : α} {bindings : List (String × α)}
    (bound : name ∈ names bindings) : names (put name value bindings) = names bindings := by
  induction bindings with
  | nil => contradiction
  | cons entry rest ih =>
    obtain ⟨key, old⟩ := entry
    by_cases same : key = name
    · simp [put, names, same]
    · have later : name ∈ names rest := by
        simpa [names, Ne.symm same] using bound
      simpa [put, names, same] using ih later

/-- Binding a name adds it behind the others, unless it is bound. -/
theorem names_put (name : String) (value : α) (bindings : List (String × α)) :
    names (put name value bindings) =
      if name ∈ names bindings then names bindings else names bindings ++ [name] := by
  split
  · next bound => exact names_put_of_mem bound
  · next fresh => simp [put_of_not_mem fresh, names]

/-- Names that are bound once each are so after one is bound. -/
theorem nodup_names_put (name : String) (value : α) {bindings : List (String × α)}
    (unique : (names bindings).Nodup) : (names (put name value bindings)).Nodup := by
  rw [names_put]
  split
  · exact unique
  · next fresh =>
    refine List.nodup_append.mpr ⟨unique, by simp, ?_⟩
    rintro other member _ last rfl
    exact fresh (List.mem_singleton.mp last ▸ member)

/-- Binding names in turn, none of them twice, appends the bindings. -/
theorem putAll_of_nodup {bound more : List (String × α)}
    (unique : (names (bound ++ more)).Nodup) : putAll bound more = bound ++ more := by
  induction more generalizing bound with
  | nil => simp [putAll]
  | cons entry rest ih =>
    have fresh : entry.1 ∉ names bound := by
      intro member
      rw [names, List.map_append, List.map_cons] at unique
      exact (List.nodup_append.mp unique).2.2 _ member _ (by simp) rfl
    have behind : putAll (bound ++ [entry]) rest = bound ++ [entry] ++ rest :=
      ih (by simpa using unique)
    rw [putAll, List.foldl_cons, put_of_not_mem fresh, ← putAll, behind, List.append_assoc,
      List.singleton_append]

end YololChip.Bindings
