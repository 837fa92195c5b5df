/-!
Maps from names to values that remember the order in which their names were first written.
Writing a name again keeps its place; a name that is erased and written again moves to the end.
Names are distinct by construction, so the entries can be read as a list or as a function.
-/
namespace ConditionalStyles

structure OrderedMap (α : Type) where
  entries : List (String × α)
  nodup : (entries.map Prod.fst).Nodup

namespace OrderedMap

variable {α : Type}

def empty : OrderedMap α := ⟨[], List.nodup_nil⟩

instance : EmptyCollection (OrderedMap α) := ⟨empty⟩

instance : Inhabited (OrderedMap α) := ⟨empty⟩

def names (m : OrderedMap α) : List String := m.entries.map Prod.fst

def size (m : OrderedMap α) : Nat := m.entries.length

def get? (m : OrderedMap α) (name : String) : Option α := m.entries.lookup name

def insertFrom (name : String) (value : α) : List (String × α) → List (String × α)
  | [] => [(name, value)]
  | entry :: rest =>
    if entry.1 = name then (name, value) :: rest else entry :: insertFrom name value rest

theorem map_fst_insertFrom (name : String) (value : α) (l : List (String × α)) :
    (insertFrom name value l).map Prod.fst =
      if name ∈ l.map Prod.fst then l.map Prod.fst else l.map Prod.fst ++ [name] := by
  induction l with
  | nil => simp [insertFrom]
  | cons entry rest ih =>
    by_cases h : entry.1 = name
    · simp [insertFrom, h]
    · have h' : ¬ name = entry.1 := fun e => h e.symm
      simp only [insertFrom, if_neg h, List.map_cons, ih, List.mem_cons, h', false_or]
      split <;> simp

theorem nodup_insertFrom (name : String) (value : α) (l : List (String × α))
    (h : (l.map Prod.fst).Nodup) : ((insertFrom name value l).map Prod.fst).Nodup := by
  rw [map_fst_insertFrom]
  split
  · exact h
  · next hn =>
    refine List.nodup_append.mpr ⟨h, by simp, ?_⟩
    intro a ha b hb hab
    rw [List.mem_singleton] at hb
    exact hn (hb ▸ hab ▸ ha)

def insert (m : OrderedMap α) (name : String) (value : α) : OrderedMap α :=
  ⟨insertFrom name value m.entries, nodup_insertFrom name value m.entries m.nodup⟩

theorem nodup_eraseFrom (name : String) (l : List (String × α))
    (h : (l.map Prod.fst).Nodup) :
    ((l.filter (fun entry => entry.1 != name)).map Prod.fst).Nodup :=
  h.sublist (List.filter_sublist.map Prod.fst)

def erase (m : OrderedMap α) (name : String) : OrderedMap α :=
  ⟨m.entries.filter (fun entry => entry.1 != name), nodup_eraseFrom name m.entries m.nodup⟩

theorem names_insert (m : OrderedMap α) (name : String) (value : α) :
    (m.insert name value).names = if name ∈ m.names then m.names else m.names ++ [name] :=
  map_fst_insertFrom name value m.entries

theorem lookup_cons_ne {key : String} {entry : String × α} (l : List (String × α))
    (h : key ≠ entry.1) : (entry :: l).lookup key = l.lookup key := by
  have hb : (key == entry.1) = false := by simpa using h
  exact List.lookup_cons.trans (by rw [hb])

theorem lookup_insertFrom (name : String) (value : α) (key : String) (l : List (String × α)) :
    (insertFrom name value l).lookup key = if key = name then some value else l.lookup key := by
  induction l with
  | nil =>
    by_cases h : key = name
    · subst h
      simp only [insertFrom, if_true]
      exact List.lookup_cons_self
    · simp only [insertFrom, if_neg h]
      exact lookup_cons_ne [] h
  | cons entry rest ih =>
    by_cases hn : entry.1 = name
    · by_cases hk : key = name
      · subst hk
        simp only [insertFrom, if_pos hn, if_true]
        exact List.lookup_cons_self
      · simp only [insertFrom, if_pos hn, if_neg hk]
        rw [lookup_cons_ne rest (fun e => hk (e.trans hn))]
        exact lookup_cons_ne rest hk
    · simp only [insertFrom, if_neg hn]
      by_cases hk : key = entry.1
      · have hne : key ≠ name := fun e => hn (hk ▸ e)
        rw [if_neg hne]
        subst hk
        exact List.lookup_cons_self.trans List.lookup_cons_self.symm
      · rw [lookup_cons_ne _ hk, lookup_cons_ne _ hk, ih]

theorem get?_insert (m : OrderedMap α) (name : String) (value : α) (key : String) :
    (m.insert name value).get? key = if key = name then some value else m.get? key :=
  lookup_insertFrom name value key m.entries

theorem lookup_filter_ne (name key : String) (l : List (String × α)) :
    (l.filter (fun entry => entry.1 != name)).lookup key =
      if key = name then none else l.lookup key := by
  induction l with
  | nil => simp
  | cons entry rest ih =>
    by_cases hn : entry.1 = name
    · rw [List.filter_cons_of_neg (by simp [hn]), ih]
      by_cases hk : key = name
      · rw [if_pos hk, if_pos hk]
      · rw [if_neg hk, if_neg hk, lookup_cons_ne rest (fun e => hk (e.trans hn))]
    · rw [List.filter_cons_of_pos (by simp [hn])]
      by_cases hk : key = entry.1
      · have hne : key ≠ name := fun e => hn (hk ▸ e)
        rw [if_neg hne]
        subst hk
        exact List.lookup_cons_self.trans List.lookup_cons_self.symm
      · rw [lookup_cons_ne _ hk, lookup_cons_ne _ hk, ih]

theorem get?_erase (m : OrderedMap α) (name key : String) :
    (m.erase name).get? key = if key = name then none else m.get? key :=
  lookup_filter_ne name key m.entries

def insertAll (m : OrderedMap α) (entries : List (String × α)) : OrderedMap α :=
  entries.foldl (fun m entry => m.insert entry.1 entry.2) m

/-- A repeated name keeps its first place and takes its last value. -/
def ofList (entries : List (String × α)) : OrderedMap α := insertAll empty entries

end OrderedMap

end ConditionalStyles
