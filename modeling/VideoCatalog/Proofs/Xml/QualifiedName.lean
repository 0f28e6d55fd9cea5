import VideoCatalog.Xml.Element

/-!
# What a qualified name stands for

A name is written with or without a qualifier, and what it stands for depends on the place: the
qualifier is one that is declared there, and a name without one is in a namespace that the language
of the document gives it. The empty text stands for no namespace.
-/

namespace VideoCatalog.Xml

/-- At the place `c`, the written name stands for the name `name` in the namespace `uri`;
`unqualified` is the namespace of names without a qualifier. -/
inductive Expands (c : Cursor) (unqualified : String) : String → String → String → Prop
  | plain {name : String} : ':' ∉ name.toList → Expands c unqualified name unqualified name
  | qualified {d : Declaration} {q name : String} : ':' ∉ q.toList → ':' ∉ name.toList →
      d ∈ c.declarations → d.qualifier = some q →
      Expands c unqualified (Xml.qualified (some q) name) d.uri name

/-- Up to its first colon a text is read back through a name that has none. -/
theorem takeWhile_reverse_append {name : String} (h : ':' ∉ name.toList) (rest : List Char) :
    (name.toList.reverse ++ rest).takeWhile (fun ch => ch ≠ ':') =
      name.toList.reverse ++ rest.takeWhile (fun ch => ch ≠ ':') := by
  refine List.takeWhile_append_of_pos fun ch hch => ?_
  have hne : ch ≠ ':' := fun heq => h (heq ▸ List.mem_reverse.mp hch)
  simpa using hne

theorem localName_of_not_mem {name : String} (h : ':' ∉ name.toList) : localName name = name := by
  have hall := takeWhile_reverse_append h []
  rw [List.append_nil, List.takeWhile_nil, List.append_nil] at hall
  rw [localName, hall, List.reverse_reverse, String.ofList_toList]

theorem localName_qualified {q name : String} (h : ':' ∉ name.toList) :
    localName (qualified (some q) name) = name := by
  have hsplit : (qualified (some q) name).toList.reverse =
      name.toList.reverse ++ ':' :: q.toList.reverse := by
    simp [qualified]
  rw [localName, hsplit, takeWhile_reverse_append h, List.takeWhile_cons_of_neg (by simp),
    List.append_nil, List.reverse_reverse, String.ofList_toList]

/-- Whatever a name stands for, its local name is what is written behind the qualifier. -/
theorem Expands.localName_eq {c : Cursor} {unqualified written uri name : String}
    (h : Expands c unqualified written uri name) : localName written = name := by
  cases h with
  | plain hname => exact localName_of_not_mem hname
  | qualified _ hname _ _ => exact localName_qualified hname

/-- A name without a qualifier stands for itself in the namespace of such names. -/
theorem Expands.eq_of_not_mem {c : Cursor} {unqualified written uri name : String}
    (h : Expands c unqualified written uri name) (hwritten : ':' ∉ written.toList) :
    uri = unqualified ∧ name = written := by
  cases h with
  | plain _ => exact ⟨rfl, rfl⟩
  | @qualified _ q name _ _ _ _ => simp [Xml.qualified] at hwritten

end VideoCatalog.Xml
