import VideoCatalog.Proofs.Xml.Escaping

/-!
# Taking a text apart into pieces

`Lexes cs ts` says that the characters `cs` are taken apart into the pieces `ts`, from whatever line
they begin on; the lines of the pieces do not count. There is one lemma for each piece that a writer
puts down: a declaration, a start tag with its attributes, which may be an end tag as well, an end
tag, and a run of character data in front of a tag. Each is a single step of `tokensFrom` followed
by the pieces of the rest (`Lexes.step`).
-/

namespace VideoCatalog.Xml

/-- The piece as it would be on the first line. -/
def Token.unlined : Token → Token
  | .start name attributes _ closed => .start name attributes 1 closed
  | t => t

/-- The characters are taken apart into these pieces, lines aside. -/
def Lexes (cs : List Char) (ts : List Token) : Prop :=
  ∀ line fuel, cs.length ≤ fuel →
    ∃ found, tokensFrom fuel line cs = .ok found ∧ found.map Token.unlined = ts

theorem Lexes.nil : Lexes [] [] := by
  intro line fuel _
  exact ⟨[], by cases fuel <;> rfl, rfl⟩

/-- What stands at the front, then the rest. -/
theorem Lexes.step {c : Char} {cs rest : List Char} {t : Option Token} {ts : List Token}
    (hstep : ∀ line, ∃ token line',
      (if c = '<' then markup? line (c :: cs) else run? line (c :: cs)) =
          some { token := token, line := line', rest := rest } ∧ token.map Token.unlined = t)
    (hlength : rest.length ≤ cs.length) (hrest : Lexes rest ts) :
    Lexes (c :: cs) (t.toList ++ ts) := by
  intro line fuel hfuel
  obtain ⟨token, line', hfound, ht⟩ := hstep line
  cases fuel with
  | zero => simp at hfuel
  | succ fuel =>
      obtain ⟨found, htokens, hfound'⟩ := hrest line' fuel (by simp at hfuel; omega)
      refine ⟨token.toList ++ found, ?_, ?_⟩
      · simp only [tokensFrom, hfound, htokens]
        rfl
      · rw [List.map_append, hfound', ← ht]
        cases token <;> rfl

/-! ## Searching for an end -/

theorem upTo?_singleton {q : Char} {cs : List Char} (h : q ∉ cs) (rest : List Char) :
    upTo? [q] (cs ++ q :: rest) = some (cs, rest) := by
  induction cs with
  | nil => simp [upTo?]
  | cons c cs ih =>
      obtain ⟨hne, hcs⟩ : q ≠ c ∧ q ∉ cs := by simpa using h
      simp [upTo?, hne, ih hcs]

/-- Where one character of a pattern is missing, the pattern is not found. -/
theorem upTo?_eq_none {stop cs : List Char} {d : Char} (hd : d ∈ stop) (h : d ∉ cs) :
    upTo? stop cs = none := by
  induction cs with
  | nil =>
      have hne : stop ≠ [] := List.ne_nil_of_mem hd
      simp [upTo?, hne]
  | cons c cs ih =>
      have hprefix : ¬ stop <+: c :: cs := fun hp => h (hp.subset hd)
      rw [upTo?, if_neg (mt List.isPrefixOf_iff_prefix.mp hprefix),
        ih (fun hmem => h (List.mem_cons_of_mem _ hmem))]
      rfl

/-! ## Names -/

/-- A name that begins and goes on as names do, with or without a qualifier. -/
def isName (s : String) : Bool :=
  s.toList.head?.any isNameStart && s.toList.all isNameChar

/-- A name without a qualifier. -/
def isPlainName (s : String) : Bool :=
  s.toList.head?.any isNameStart && s.toList.all (fun c => isNameChar c && c ≠ ':')

theorem isName_iff {s : String} :
    isName s = true ↔
      (∃ c cs, s.toList = c :: cs ∧ isNameStart c = true) ∧
        ∀ c ∈ s.toList, isNameChar c = true := by
  unfold isName
  cases s.toList <;> simp

theorem isPlainName_iff {s : String} :
    isPlainName s = true ↔
      (∃ c cs, s.toList = c :: cs ∧ isNameStart c = true) ∧
        ∀ c ∈ s.toList, isNameChar c = true ∧ c ≠ ':' := by
  unfold isPlainName
  cases s.toList <;> simp

theorem isName_of_isPlainName {s : String} (h : isPlainName s = true) : isName s = true := by
  obtain ⟨hstart, hall⟩ := isPlainName_iff.mp h
  exact isName_iff.mpr ⟨hstart, fun c hc => (hall c hc).1⟩

/-- A name ends where a character cannot belong to it. -/
theorem name?_append {name : String} (h : isName name = true) {rest : List Char}
    (hrest : ∀ c ∈ rest.head?, isNameChar c = false) :
    name? (name.toList ++ rest) = some (name, rest) := by
  obtain ⟨⟨n, ns, heq, hstart⟩, hname⟩ := isName_iff.mp h
  have htake : rest.takeWhile isNameChar = [] := by
    cases rest with
    | nil => rfl
    | cons c rest => simp [hrest c rfl]
  have hdrop : rest.dropWhile isNameChar = rest := by
    cases rest with
    | nil => rfl
    | cons c rest => simp [hrest c rfl]
  have hhead : ∃ tail, name.toList ++ rest = n :: tail := ⟨ns ++ rest, by rw [heq]; rfl⟩
  obtain ⟨tail, htail⟩ := hhead
  have hread : (name.toList ++ rest).takeWhile isNameChar = name.toList := by
    rw [List.takeWhile_append_of_pos hname, htake, List.append_nil]
  have hleft : (name.toList ++ rest).dropWhile isNameChar = rest := by
    rw [List.dropWhile_append_of_pos hname, hdrop]
  rw [htail] at hread hleft ⊢
  simp only [name?, hstart, hread, hleft, if_true, String.ofList_toList]

/-- A name does not begin as something else in a tag does. -/
theorem ne_of_isNameStart {n c : Char} (h : isNameStart n = true) (hc : isNameStart c = false) :
    n ≠ c := by
  rintro rfl
  exact absurd h (by simp [hc])

/-! ## Attributes -/

/-- The characters of the attributes of a start tag. -/
def attributeChars (as : List (String × String)) : List Char :=
  as.flatMap (fun a => (attributeText a.1 a.2).toList)

/-- The attributes as they are read. -/
def asRead (as : List (String × String)) : List (String × String) :=
  as.map (fun a => (a.1, inAttribute a.2))

/-- The names are names, each given once. -/
structure AreAttributes (as : List (String × String)) : Prop where
  names : ∀ a ∈ as, isName a.1 = true
  distinct : (as.map Prod.fst).Nodup

theorem AreAttributes.nil : AreAttributes [] where
  names := fun _ ha => nomatch ha
  distinct := List.nodup_nil

theorem AreAttributes.tail {a : String × String} {as : List (String × String)}
    (h : AreAttributes (a :: as)) : AreAttributes as where
  names := fun b hb => h.names b (List.mem_cons_of_mem _ hb)
  distinct := (List.nodup_cons.mp h.distinct).2

/-- How a start tag ends. -/
def tagEnd (closed : Bool) : List Char :=
  if closed then ['/', '>'] else ['>']

/-- One attribute with its blank in front. -/
theorem toList_attributeText (name value : String) :
    (attributeText name value).toList =
      ' ' :: (name.toList ++ '=' :: '\x22' :: ((escape .attribute value).toList ++ ['\x22'])) := by
  simp [attributeText]

theorem attribute?_written {name : String} (h : isName name = true) (value : String)
    (rest : List Char) :
    attribute? (name.toList ++
        '=' :: '\x22' :: ((escape .attribute value).toList ++ '\x22' :: rest)) =
      some (name, inAttribute value, (escape .attribute value).toList, rest) := by
  have hname : name? (name.toList ++
      '=' :: '\x22' :: ((escape .attribute value).toList ++ '\x22' :: rest)) =
        some (name, '=' :: '\x22' :: ((escape .attribute value).toList ++ '\x22' :: rest)) :=
    name?_append h (by simp; decide)
  have hequals : ∀ cs, ('=' :: cs).dropWhile isGap = '=' :: cs := fun _ => rfl
  have hquote : ∀ cs, ('\x22' :: cs).dropWhile isGap = '\x22' :: cs := fun _ => rfl
  have hraw := upTo?_singleton (not_mem_escape value (.inr ⟨rfl, rfl⟩)) rest
  simp only [attribute?, hname, hequals, hquote, hraw, attributeValue?_escape, bind,
    Option.bind_some, decide_true, Bool.true_or, if_true, String.ofList_toList]

/-- Behind a blank a name begins an attribute. -/
theorem attributes?_blank {n : Char} (hn : isNameStart n = true) (fuel line : Nat)
    (cs : List Char) :
    attributes? (fuel + 1) line (' ' :: n :: cs) =
      match attribute? (n :: cs) with
      | none => none
      | some (name, value, raw, rest) =>
        match attributes? fuel (lineAfter line raw) rest with
        | none => none
        | some (more, line, closed, rest) =>
          if more.any (fun a => a.1 = name) then none
          else some ((name, value) :: more, line, closed, rest) := by
  have hgap : isGap n = false := by
    have hblank := ne_of_isNameStart hn (c := ' ') (by decide)
    have htab := ne_of_isNameStart hn (c := '\t') (by decide)
    have hfeed := ne_of_isNameStart hn (c := '\n') (by decide)
    have hreturn := ne_of_isNameStart hn (c := '\r') (by decide)
    simp [isGap, hblank, htab, hfeed, hreturn]
  have htake : (' ' :: n :: cs).takeWhile isGap = [' '] := by
    rw [List.takeWhile_cons_of_pos rfl, List.takeWhile_cons_of_neg (by simp [hgap])]
  have hdrop : (' ' :: n :: cs).dropWhile isGap = n :: cs := by
    rw [List.dropWhile_cons_of_pos rfl, List.dropWhile_cons_of_neg (by simp [hgap])]
  have hline : lineAfter line [' '] = line := rfl
  rw [attributes?, htake, hdrop, hline]
  split
  · next hend => exact absurd (List.cons.inj hend).1 (ne_of_isNameStart hn (by decide))
  · next hend => exact absurd (List.cons.inj hend).1 (ne_of_isNameStart hn (by decide))
  · rfl

/-- The attributes of a start tag are read up to its end. -/
theorem attributes?_written (closed : Bool) (rest : List Char) {as : List (String × String)}
    (h : AreAttributes as) {fuel : Nat} (hfuel : as.length < fuel) (line : Nat) :
    ∃ line', attributes? fuel line (attributeChars as ++ (tagEnd closed ++ rest)) =
      some (asRead as, line', closed, rest) := by
  induction as generalizing fuel line with
  | nil =>
      obtain ⟨fuel, rfl⟩ := Nat.exists_eq_add_one_of_ne_zero (Nat.ne_of_gt hfuel)
      exact ⟨line, by cases closed <;> rfl⟩
  | cons a as ih =>
      have hpositive : fuel ≠ 0 := Nat.ne_of_gt (Nat.zero_lt_of_lt hfuel)
      obtain ⟨fuel, rfl⟩ := Nat.exists_eq_add_one_of_ne_zero hpositive
      have hname := h.names a List.mem_cons_self
      obtain ⟨⟨n, ns, heq, hstart⟩, -⟩ := isName_iff.mp hname
      obtain ⟨line', hmore⟩ := ih h.tail (Nat.lt_of_succ_lt_succ hfuel)
        (lineAfter line (escape .attribute a.2).toList)
      have hnew : (asRead as).any (fun b => b.1 = a.1) = false := by
        have hnotin := (List.nodup_cons.mp h.distinct).1
        simp only [asRead, List.any_map, List.any_eq_false, Function.comp_apply, decide_eq_true_eq]
        intro b hb hsame
        exact hnotin (List.mem_map.mpr ⟨b, hb, hsame⟩)
      have hchars : attributeChars (a :: as) ++ (tagEnd closed ++ rest) =
          ' ' :: (a.1.toList ++ '=' :: '\x22' :: ((escape .attribute a.2).toList ++
            '\x22' :: (attributeChars as ++ (tagEnd closed ++ rest)))) := by
        simp [attributeChars, toList_attributeText]
      have hattribute := attribute?_written hname a.2 (attributeChars as ++ (tagEnd closed ++ rest))
      rw [heq, List.cons_append] at hattribute
      refine ⟨line', ?_⟩
      rw [hchars, heq, List.cons_append, attributes?_blank hstart, hattribute]
      simp only [hmore, hnew]
      rfl

theorem length_le_attributeChars (as : List (String × String)) :
    as.length ≤ (attributeChars as).length := by
  induction as with
  | nil => exact Nat.le_refl 0
  | cons a as ih =>
      have hone : 1 ≤ (attributeText a.1 a.2).toList.length := by
        rw [toList_attributeText, List.length_cons]
        exact Nat.le_add_left 1 _
      rw [attributeChars, List.flatMap_cons, List.length_append, List.length_cons,
        Nat.add_comm as.length 1]
      exact Nat.add_le_add hone ih

theorem return_not_mem_isName {name : String} (h : isName name = true) : '\r' ∉ name.toList :=
  fun hmem => absurd ((isName_iff.mp h).2 _ hmem) (by decide)

theorem return_not_mem_attributeChars {as : List (String × String)} (h : AreAttributes as) :
    '\r' ∉ attributeChars as := by
  intro hmem
  obtain ⟨a, ha, hmem⟩ := List.mem_flatMap.mp hmem
  have hname := return_not_mem_isName (h.names a ha)
  have hvalue : '\r' ∉ (escape .attribute a.2).toList := not_mem_escape a.2 (.inl (by simp))
  simp [toList_attributeText, hname, hvalue] at hmem

/-! ## Start tags -/

/-- A `<` in front of a name begins a start tag. -/
theorem markup?_start {name : String} (h : isName name = true) {rest : List Char}
    (hrest : ∀ c ∈ rest.head?, isNameChar c = false) (line : Nat) :
    markup? line ('<' :: (name.toList ++ rest)) =
      (attributes? (rest.length + 1) line rest).map (fun a =>
        { token := some (.start name a.1 a.2.1 a.2.2.1), line := a.2.1, rest := a.2.2.2 }) := by
  obtain ⟨⟨n, ns, heq, hstart⟩, -⟩ := isName_iff.mp h
  have hbang := ne_of_isNameStart hstart (c := '!') (by decide)
  have hquery := ne_of_isNameStart hstart (c := '?') (by decide)
  have hslash := ne_of_isNameStart hstart (c := '/') (by decide)
  have hname := name?_append h hrest
  have hchars : name.toList ++ rest = n :: (ns ++ rest) := by rw [heq]; rfl
  rw [hchars] at hname ⊢
  simp only [markup?]
  simp [hbang.symm, hquery.symm, hslash.symm, hname]
  cases attributes? (rest.length + 1) line rest <;> rfl

/-- A start tag is one piece. -/
theorem Lexes.tag {name : String} (h : isName name = true) {as : List (String × String)}
    (has : AreAttributes as) (closed : Bool) {rest : List Char} {ts : List Token}
    (hrest : Lexes rest ts) :
    Lexes ('<' :: (name.toList ++ (attributeChars as ++ (tagEnd closed ++ rest))))
      (.start name (asRead as) 1 closed :: ts) := by
  have hend : ∀ c ∈ (attributeChars as ++ (tagEnd closed ++ rest)).head?, isNameChar c = false := by
    cases as with
    | nil => cases closed <;> simp [attributeChars, tagEnd] <;> decide
    | cons a as =>
        simp [attributeChars, toList_attributeText]
        decide
  have hlength := length_le_attributeChars as
  have hfuel : as.length < (attributeChars as ++ (tagEnd closed ++ rest)).length + 1 := by
    rw [List.length_append]
    omega
  refine Lexes.step (t := some (.start name (asRead as) 1 closed)) (fun line => ?_) (by simp; omega)
    hrest
  obtain ⟨line', hline'⟩ := attributes?_written closed rest has hfuel line
  refine ⟨some (.start name (asRead as) line' closed), line', ?_, rfl⟩
  rw [if_pos rfl, markup?_start h hend, hline']
  rfl

/-! ## Other pieces -/

theorem Lexes.finish {name : String} (h : isName name = true) {rest : List Char}
    {ts : List Token} (hrest : Lexes rest ts) :
    Lexes ('<' :: '/' :: (name.toList ++ '>' :: rest)) (.finish name :: ts) := by
  have hname : name? (name.toList ++ '>' :: rest) = some (name, '>' :: rest) :=
    name?_append h (by simp; decide)
  refine Lexes.step (t := some (.finish name)) (fun line => ?_) (by simp; omega) hrest
  refine ⟨some (.finish name), line, ?_, rfl⟩
  rw [if_pos rfl]
  simp [markup?, hname, isGap, lineAfter]

/-- A run of character data in front of a tag is one piece. -/
theorem Lexes.text {raw text : List Char} (hne : raw ≠ []) (hlt : '<' ∉ raw) (hgt : '>' ∉ raw)
    (htext : contentText? raw = some text) {rest : List Char} {ts : List Token}
    (hrest : Lexes ('<' :: rest) ts) : Lexes (raw ++ '<' :: rest) (.text text :: ts) := by
  obtain ⟨c, cs, rfl⟩ := List.exists_cons_of_ne_nil hne
  have hc : c ≠ '<' := fun h => hlt (h ▸ List.mem_cons_self)
  have hinside : ∀ d ∈ c :: cs, (decide (d ≠ '<')) = true := fun d hd =>
    decide_eq_true fun h => hlt (h ▸ hd)
  have htake : (c :: (cs ++ '<' :: rest)).takeWhile (fun d => d ≠ '<') = c :: cs := by
    rw [← List.cons_append, List.takeWhile_append_of_pos hinside]
    simp
  have hnone : upTo? "]]>".toList (c :: cs) = none := upTo?_eq_none (d := '>') (by decide) hgt
  rw [List.cons_append]
  refine Lexes.step (t := some (.text text)) (fun line => ?_) (by simp) hrest
  refine ⟨some (.text text), lineAfter line (c :: cs), ?_, rfl⟩
  rw [if_neg hc, run?, htake, hnone]
  simp [htext]

/-- The declaration at the front of a document says nothing. -/
theorem Lexes.declaration {rest : List Char} {ts : List Token} (hrest : Lexes rest ts) :
    Lexes ("<?xml version=\"1.0\" encoding=\"UTF-8\"?>".toList ++ rest) ts := by
  refine Lexes.step (t := none) (fun line => ?_) ?_ hrest
  · exact ⟨none, line, rfl, rfl⟩
  · simp
    omega

end VideoCatalog.Xml
