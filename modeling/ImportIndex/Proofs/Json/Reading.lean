import ImportIndex.Json.Reader
import Mathlib.Data.List.Forall2

/-!
# Reading what was written

A reader *reads* a value if it takes it off the front of a text, as it is written at some level and
with spaces in front (`Reader.Reads`). Readers of texts, lists, objects and records read what was
written if the readers of their parts do (`text_reads`, `list_reads`, `object_reads`,
`record_reads`).

Lists and objects are read piece by piece, at most one piece for each character of the text. That
there are enough characters is clear from how they are written.
-/

namespace ImportIndex.Json.Reader

variable {α β σ : Type} {r : Reader α} {f : α → Reader β} {a : α} {cs rest : List Char}
  {level : Nat} {strict : Bool}

theorem bind_of_eq (h : r cs = .ok (a, rest)) : (r >>= f) cs = f a rest := by
  change (r cs).bind _ = _
  rw [h]
  rfl

/-! ### Spaces -/

theorem peek_eq : peek cs = .ok ((cs.dropWhile isSpace).head?, cs.dropWhile isSpace) := rfl

/-- What is next behind spaces. -/
theorem peek_of_spaces {spaces : List Char} (hs : ∀ c ∈ spaces, isSpace c = true) {c : Char}
    (hc : isSpace c = false) : peek (spaces ++ c :: rest) = .ok (some c, c :: rest) := by
  rw [peek_eq, List.dropWhile_append_of_pos hs, List.dropWhile_cons_of_neg (by rw [hc]; decide)]
  rfl

theorem peek_cons {c : Char} (hc : isSpace c = false) :
    peek (c :: rest) = .ok (some c, c :: rest) := by
  rw [peek_eq, List.dropWhile_cons_of_neg (by rw [hc]; decide)]
  rfl

theorem isSpace_of_mem_newline {c : Char} (h : c ∈ newline level) : isSpace c = true := by
  rcases List.mem_cons.1 h with rfl | h
  · rfl
  · rw [List.eq_of_mem_replicate h]
    rfl

theorem drop_cons {c : Char} : drop (c :: cs) = .ok ((), cs) := rfl

/-! ### Quoted texts -/

theorem quoted_quote : quoted strict ('"' :: rest) = .ok ([], rest) := by
  unfold quoted
  rw [if_pos rfl]

theorem quoted_plain {c : Char} (h : isPlain c = true) :
    quoted strict (c :: cs) = (quoted strict cs).map fun r => (c :: r.1, r.2) := by
  simp only [isPlain, Bool.and_eq_true, bne_iff_ne, decide_eq_true_eq] at h
  rw [quoted.eq_def]
  simp only [if_neg h.1.1, if_pos h.1.2, if_neg (Nat.not_lt.2 h.2)]

theorem quoted_short {c letter : Char} (h : unescape? letter = some c) :
    quoted strict ('\\' :: letter :: cs) = (quoted strict cs).map fun r => (c :: r.1, r.2) := by
  rw [quoted.eq_def]
  simp [h]

theorem unescape?_of_shortEscape? {c letter : Char} (h : shortEscape? c = some letter) :
    unescape? letter = some c := by
  unfold shortEscape? at h
  repeat'
    split at h
    · next heq =>
      obtain rfl := Option.some.inj h
      subst heq
      decide
  cases h

/-- The four digits of a control character stand for it. -/
theorem fourHex?_control {n : Nat} (hn : n < 0x20) :
    fourHex? '0' '0' (Nat.digitChar (n / 0x10)) (Nat.digitChar (n % 0x10)) = some n := by
  revert n
  decide

theorem quoted_control {c : Char} (h : c.toNat < 0x20) :
    quoted strict ('\\' :: 'u' :: '0' :: '0' :: Nat.digitChar (c.toNat / 0x10) ::
      Nat.digitChar (c.toNat % 0x10) :: cs) = (quoted strict cs).map fun r => (c :: r.1, r.2) := by
  have hlow : isLowHalf c.toNat = false := by
    simp [isLowHalf]
    omega
  have hhigh : isHighHalf c.toNat = false := by
    simp [isHighHalf]
    omega
  have hu : unescape? 'u' = none := by decide
  rw [quoted.eq_def]
  simp [hu, fourHex?_control h, hlow, hhigh]

theorem quoted_escape {c : Char} :
    quoted strict (escape c ++ cs) = (quoted strict cs).map fun r => (c :: r.1, r.2) := by
  rw [escape]
  cases hshort : shortEscape? c with
  | some letter => exact quoted_short (unescape?_of_shortEscape? hshort)
  | none =>
    by_cases hcontrol : c.toNat < 0x20
    · simp only [if_pos hcontrol]
      exact quoted_control hcontrol
    · simp only [if_neg hcontrol]
      refine quoted_plain ?_
      have hne : c ≠ '"' ∧ c ≠ '\\' := by
        refine ⟨?_, ?_⟩ <;> rintro rfl <;> cases hshort
      simp [isPlain, hne.1, hne.2, Nat.not_lt.1 hcontrol]

/-- A quoted text is read back. -/
theorem quotedRest_quote (s : String) :
    quotedRest strict (s.toList.flatMap escape ++ '"' :: rest) = .ok (s, rest) := by
  have hquoted : ∀ cs : List Char,
      quoted strict (cs.flatMap escape ++ '"' :: rest) = .ok (cs, rest) := by
    intro cs
    induction cs with
    | nil => exact quoted_quote
    | cons c cs ih =>
      rw [List.flatMap_cons, List.append_assoc, quoted_escape, ih]
      rfl
  have hget : ∀ cs, (get : Reader (List Char)) cs = .ok (cs, cs) := fun _ => rfl
  rw [quotedRest, bind_of_eq (hget _), hquoted]
  exact congrArg (fun s => Except.ok (s, rest)) (String.ofList_toList ..)

/-! ### Values -/

/-- Whether a text does not go on with a number. -/
def Ended (rest : List Char) : Prop :=
  ∀ c ∈ rest.head?, (isDigit c || c == '.' || c == 'e' || c == 'E') = false

/-- Whether a reader takes a value off the front of a text, behind spaces, and comes to `a`. -/
def Reads (r : Reader α) (j : Json) (a : α) : Prop :=
  ∀ level spaces rest, (∀ c ∈ spaces, isSpace c = true) → Ended rest →
    r (spaces ++ (write level j ++ rest)) = .ok (a, rest)

theorem Reads.map {j : Json} (h : Reads r j a) (g : α → β) :
    Reads (do return g (← r) : Reader β) j (g a) :=
  fun level spaces rest hs hrest => bind_of_eq (h level spaces rest hs hrest)

theorem text_reads {wanted : String} (s : String) : Reads (text wanted) (.text s) s := by
  intro level spaces rest hs _
  have hpeek : peek (spaces ++ (write level (.text s) ++ rest)) =
      .ok (some '"', write level (.text s) ++ rest) := by
    rw [write, quote, List.cons_append]
    exact peek_of_spaces hs rfl
  rw [text, bind_of_eq hpeek, write, quote]
  refine (bind_of_eq drop_cons).trans ?_
  change quotedRest true ((s.toList.flatMap escape ++ ['"']) ++ rest) = _
  rw [List.append_assoc]
  exact quotedRest_quote s

/-! ### Members of objects -/

/-- Whether a reader of members takes what follows the name of one, and goes from `s` to `s'`. -/
def MemberReads (member : σ → String → Reader σ) (s : σ) (m : String × Json) (s' : σ) : Prop :=
  ∀ level rest, Ended rest →
    member s m.1 (':' :: ' ' :: (write level m.2 ++ rest)) = .ok (s', rest)

/-- Whether a reader of members takes several of them one by one, and goes from `s` to `s'`. -/
inductive MembersRead (member : σ → String → Reader σ) : σ → List (String × Json) → σ → Prop
  | nil {s} : MembersRead member s [] s
  | cons {s s' s'' m ms} (first : MemberReads member s m s') (others : MembersRead member s' ms s'') :
      MembersRead member s (m :: ms) s''

theorem colon_eq : colon (':' :: cs) = .ok ((), cs) := by
  have hpeek : peek (':' :: cs) = .ok (some ':', ':' :: cs) := peek_cons rfl
  rw [colon, bind_of_eq hpeek]
  rfl

variable {member : σ → String → Reader σ} {s s' : σ} {ms : List (String × Json)}

theorem ended_newline : Ended (newline level ++ rest) := by
  simp [Ended, newline, isDigit]

theorem ended_writeMembers : Ended (writeMembers (level + 1) ms ++ (newline level ++ rest)) := by
  cases ms with
  | nil => exact ended_newline
  | cons m ms => simp [Ended, writeMembers, isDigit]

theorem length_le_writeMembers : ms.length ≤ (writeMembers level ms).length := by
  induction ms with
  | nil => exact Nat.zero_le _
  | cons m ms ih =>
    rw [writeMembers]
    simp only [List.length_cons, List.length_append]
    omega

theorem peek_quote {name : String} :
    peek (newline level ++ (quote name ++ cs)) = .ok (some '"', quote name ++ cs) :=
  peek_of_spaces (fun _ => isSpace_of_mem_newline) rfl

theorem anotherMember_end {first : Bool} :
    anotherMember strict first (newline level ++ '}' :: rest) = .ok (false, '}' :: rest) := by
  have hpeek : peek (newline level ++ '}' :: rest) = .ok (some '}', '}' :: rest) :=
    peek_of_spaces (fun _ => isSpace_of_mem_newline) rfl
  rw [anotherMember, bind_of_eq hpeek]
  rfl

theorem anotherMember_first {name : String} :
    anotherMember strict true (newline level ++ (quote name ++ cs)) = .ok (true, quote name ++ cs) := by
  rw [anotherMember, bind_of_eq peek_quote]
  rfl

theorem anotherMember_next {name : String} :
    anotherMember strict false (',' :: (newline level ++ (quote name ++ cs))) =
      .ok (true, quote name ++ cs) := by
  have hpeek : peek (',' :: (newline level ++ (quote name ++ cs))) =
      .ok (some ',', ',' :: (newline level ++ (quote name ++ cs))) := peek_cons rfl
  rw [anotherMember, bind_of_eq hpeek]
  exact (bind_of_eq drop_cons).trans (bind_of_eq peek_quote)

/-- A member is taken, and those behind it are left. -/
theorem membersWithin_member {first : Bool} {fuel : List Char} {c : Char} {m : String × Json}
    (hanother : anotherMember true first cs =
      .ok (true, quote m.1 ++ (':' :: ' ' :: (write level m.2 ++ rest))))
    (h : MemberReads member s m s') (hrest : Ended rest) :
    membersWithin true member (c :: fuel) first s cs = membersWithin true member fuel false s' rest := by
  rw [membersWithin, bind_of_eq hanother]
  change (do
    drop
    let s ← member s (← quotedRest true)
    membersWithin true member fuel false s : Reader σ) _ = _
  have hname : quotedRest true ((m.1.toList.flatMap escape ++ ['"']) ++
      (':' :: ' ' :: (write level m.2 ++ rest))) =
        .ok (m.1, ':' :: ' ' :: (write level m.2 ++ rest)) := by
    rw [List.append_assoc]
    exact quotedRest_quote m.1
  refine (bind_of_eq drop_cons).trans ((bind_of_eq hname).trans ?_)
  exact bind_of_eq (h level rest hrest)

/-- Members behind the first are read one by one. -/
theorem membersWithin_writeMembers (h : MembersRead member s ms s') {fuel : List Char}
    (hfuel : ms.length < fuel.length) :
    membersWithin true member fuel false s
      (writeMembers (level + 1) ms ++ (newline level ++ '}' :: rest)) = .ok (s', '}' :: rest) := by
  induction h generalizing fuel with
  | nil =>
    obtain ⟨c, fuel, rfl⟩ := List.exists_cons_of_length_pos hfuel
    rw [membersWithin, writeMembers, List.nil_append, bind_of_eq anotherMember_end]
    rfl
  | @cons s s' s'' m ms first _ ih =>
    obtain ⟨c, fuel, rfl⟩ := List.exists_cons_of_length_pos (Nat.zero_lt_of_lt hfuel)
    have hanother : anotherMember true false
        (writeMembers (level + 1) (m :: ms) ++ (newline level ++ '}' :: rest)) =
          .ok (true, quote m.1 ++ (':' :: ' ' :: (write (level + 1) m.2 ++
            (writeMembers (level + 1) ms ++ (newline level ++ '}' :: rest))))) := by
      rw [writeMembers]
      simp only [List.cons_append, List.append_assoc, List.nil_append]
      exact anotherMember_next
    exact (membersWithin_member hanother first ended_writeMembers).trans
      (ih (Nat.lt_of_succ_lt_succ hfuel))

/-- Members are read from the opening brace on, and something is made of them. -/
theorem members_write (level : Nat) (rest : List Char) (h : MembersRead member s ms s') : ∃ cs,
    write level (.object ms) ++ rest = '{' :: cs ∧
      ∀ {α} {k : σ → Reader α} {a}, (∀ cs, k s' cs = .ok (a, cs)) →
        inObject (members true member s >>= k) cs = .ok (a, rest) := by
  have hclose : ∀ {cs}, members true member s cs = .ok (s', '}' :: rest) →
      ∀ {α} {k : σ → Reader α} {a}, (∀ cs, k s' cs = .ok (a, cs)) →
        inObject (members true member s >>= k) cs = .ok (a, rest) := by
    intro cs hmembers α k a hk
    have hplacing : placing afterObject (members true member s >>= k) cs = .ok (a, '}' :: rest) := by
      change (tryCatch ((members true member s >>= k) cs) fun e => _ : Except Stop _) = _
      rw [bind_of_eq hmembers, hk]
      rfl
    have hcloseObject : closeObject ('}' :: rest) = .ok ((), rest) := by
      have hpeek : peek ('}' :: rest) = .ok (some '}', '}' :: rest) := peek_cons rfl
      rw [closeObject, bind_of_eq hpeek]
      rfl
    rw [inObject, bind_of_eq hplacing, bind_of_eq hcloseObject]
    rfl
  have hget : ∀ cs, members true member s cs = membersWithin true member cs true s cs := fun _ => rfl
  cases h with
  | nil =>
    refine ⟨'}' :: rest, rfl, hclose ?_⟩
    have hanother : anotherMember true true ('}' :: rest) = .ok (false, '}' :: rest) := by
      have hpeek : peek ('}' :: rest) = .ok (some '}', '}' :: rest) := peek_cons rfl
      rw [anotherMember, bind_of_eq hpeek]
      rfl
    rw [hget, membersWithin, bind_of_eq hanother]
    rfl
  | @cons _ s'' _ m ms first others =>
    refine ⟨newline (level + 1) ++ (quote m.1 ++ (':' :: ' ' :: (write (level + 1) m.2 ++
      (writeMembers (level + 1) ms ++ (newline level ++ '}' :: rest))))), ?_, hclose ?_⟩
    · rw [write]
      simp only [List.cons_append, List.append_assoc, List.nil_append]
    · have hfuel : ms.length < (List.replicate (2 * (level + 1)) ' ' ++ (quote m.1 ++
          (':' :: ' ' :: (write (level + 1) m.2 ++ (writeMembers (level + 1) ms ++
            (newline level ++ '}' :: rest)))))).length := by
        have := @length_le_writeMembers (level + 1) ms
        simp only [List.length_append, List.length_cons, newline]
        omega
      rw [hget]
      exact (membersWithin_member anotherMember_first first ended_writeMembers).trans
        (membersWithin_writeMembers others hfuel)


/-- An object is read if its members are. -/
theorem object_reads (h : MembersRead member s ms s') :
    Reads (object member s) (.object ms) s' := by
  intro level spaces rest hs _
  obtain ⟨cs, hwrite, hread⟩ := members_write level rest h
  have hread : inObject (members true member s >>= pure) cs = .ok (s', rest) := hread fun _ => rfl
  rw [bind_pure] at hread
  rw [hwrite, object, bind_of_eq (peek_of_spaces hs rfl)]
  exact (bind_of_eq drop_cons).trans hread

/-! ### Fields of records -/

section

variable {fields : List (Field σ)} {ignoreUnknown : Bool} {names : List String}

/-- A field is read from the member of its name, once. -/
theorem fieldMember_reads {name : String} {field : Field σ} {j : Json}
    (hfind : fields.find? (·.name == name) = some field) (hnew : name ∉ names)
    (h : Reads (field.read s) j s') :
    MemberReads (fieldMember fields ignoreUnknown) (s, names) (name, j) (s', name :: names) := by
  intro level rest hrest
  have hread := h level [' '] rest (by simp [isSpace]) hrest
  have hmember : fieldMember fields ignoreUnknown (s, names) name = do
      colon
      let s' ← field.read s
      return (s', name :: names) := by
    simp only [fieldMember, hfind, if_neg hnew]
  rw [hmember, bind_of_eq colon_eq]
  exact bind_of_eq hread

/-- A record is read from an object with all fields that it needs. -/
theorem record_reads {wanted : String}
    (h : MembersRead (fieldMember fields ignoreUnknown) (s, []) ms (s', names))
    (hall : fields.find? (fun field => field.required && field.name ∉ names) = none) :
    Reads (record wanted fields ignoreUnknown s) (.object ms) s' := by
  intro level spaces rest hs _
  obtain ⟨cs, hwrite, hread⟩ := members_write level rest h
  rw [hwrite, record, bind_of_eq (peek_of_spaces hs rfl)]
  refine (bind_of_eq drop_cons).trans (hread fun cs => ?_)
  simp only [hall]
  rfl

end

/-! ### Items of lists -/

/-- Whether a value is written with neither a space nor a closing bracket in front. -/
def Opens (j : Json) : Prop :=
  ∀ level, ∃ c cs, write level j = c :: cs ∧ isSpace c = false ∧ c ≠ ']'

theorem opens_object : Opens (.object ms) := by
  intro level
  cases ms with
  | nil => exact ⟨'{', _, rfl, rfl, by decide⟩
  | cons m ms => exact ⟨'{', _, rfl, rfl, by decide⟩

variable {item : Reader α} {js : List Json} {as : List α}

theorem length_le_writeItems : js.length ≤ (writeItems level js).length := by
  induction js with
  | nil => exact Nat.zero_le _
  | cons j js ih =>
    rw [writeItems]
    simp only [List.length_cons, List.length_append]
    omega

theorem ended_writeItems : Ended (writeItems (level + 1) js ++ (newline level ++ rest)) := by
  cases js with
  | nil => exact ended_newline
  | cons j js => simp [Ended, writeItems, isDigit]

theorem anotherItem_end {first : Bool} :
    anotherItem strict first (newline level ++ ']' :: rest) = .ok (false, ']' :: rest) := by
  have hpeek : peek (newline level ++ ']' :: rest) = .ok (some ']', ']' :: rest) :=
    peek_of_spaces (fun _ => isSpace_of_mem_newline) rfl
  rw [anotherItem, bind_of_eq hpeek]
  rfl

theorem peek_item {j : Json} (h : Opens j) : ∃ c, c ≠ ']' ∧
    peek (newline level ++ (write level j ++ cs)) = .ok (some c, write level j ++ cs) := by
  obtain ⟨c, cs', hwrite, hspace, hne⟩ := h level
  refine ⟨c, hne, ?_⟩
  rw [hwrite, List.cons_append]
  exact peek_of_spaces (fun _ => isSpace_of_mem_newline) hspace

theorem anotherItem_first {j : Json} (h : Opens j) :
    anotherItem strict true (newline level ++ (write level j ++ cs)) = .ok (true, write level j ++ cs) := by
  obtain ⟨c, hne, hpeek⟩ := @peek_item cs level j h
  rw [anotherItem, bind_of_eq hpeek]
  simp only [if_pos]
  rfl

theorem anotherItem_next {j : Json} (h : Opens j) :
    anotherItem strict false (',' :: (newline level ++ (write level j ++ cs))) =
      .ok (true, write level j ++ cs) := by
  obtain ⟨c, hne, hpeek⟩ := @peek_item cs level j h
  have hcomma : peek (',' :: (newline level ++ (write level j ++ cs))) =
      .ok (some ',', ',' :: (newline level ++ (write level j ++ cs))) := peek_cons rfl
  rw [anotherItem, bind_of_eq hcomma]
  refine (bind_of_eq drop_cons).trans ((bind_of_eq hpeek).trans ?_)
  simp only
  rfl

/-- An item is taken, and those behind it are left. -/
theorem itemsWithin_item {first : Bool} {fuel : List Char} {c : Char} {j : Json}
    (hanother : anotherItem strict first cs = .ok (true, write level j ++ rest))
    (h : Reads item j a) (hrest : Ended rest) {rest' : List Char}
    (hothers : itemsWithin strict item fuel false rest = .ok (as, rest')) :
    itemsWithin strict item (c :: fuel) first cs = .ok (a :: as, rest') := by
  rw [itemsWithin, bind_of_eq hanother]
  change (do
    let a ← item
    return a :: (← itemsWithin strict item fuel false) : Reader (List α)) _ = _
  have hitem : item (write level j ++ rest) = .ok (a, rest) := h level [] rest (by simp) hrest
  rw [bind_of_eq hitem, bind_of_eq hothers]
  rfl

/-- Items behind the first are read one by one. -/
theorem itemsWithin_writeItems (h : List.Forall₂ (fun j a => Opens j ∧ Reads item j a) js as)
    {fuel : List Char} (hfuel : js.length < fuel.length) :
    itemsWithin strict item fuel false
      (writeItems (level + 1) js ++ (newline level ++ ']' :: rest)) = .ok (as, ']' :: rest) := by
  induction h generalizing fuel with
  | nil =>
    obtain ⟨c, fuel, rfl⟩ := List.exists_cons_of_length_pos hfuel
    rw [itemsWithin, writeItems, List.nil_append, bind_of_eq anotherItem_end]
    rfl
  | @cons j a js as hj _ ih =>
    obtain ⟨c, fuel, rfl⟩ := List.exists_cons_of_length_pos (Nat.zero_lt_of_lt hfuel)
    have hanother : anotherItem strict false
        (writeItems (level + 1) (j :: js) ++ (newline level ++ ']' :: rest)) =
          .ok (true, write (level + 1) j ++
            (writeItems (level + 1) js ++ (newline level ++ ']' :: rest))) := by
      rw [writeItems]
      simp only [List.cons_append, List.append_assoc]
      exact anotherItem_next hj.1
    exact itemsWithin_item hanother hj.2 ended_writeItems (ih (Nat.lt_of_succ_lt_succ hfuel))

/-- A list is read if its items are. -/
theorem list_reads (h : List.Forall₂ (fun j a => Opens j ∧ Reads item j a) js as) :
    Reads (list item) (.list js) as := by
  intro level spaces rest hs _
  have hclose : ∀ {cs}, items true item true cs = .ok (as, ']' :: rest) →
      inList (items true item true) cs = .ok (as, rest) := by
    intro cs hitems
    have hplacing : placing afterList (items true item true) cs = .ok (as, ']' :: rest) := by
      change (tryCatch (items true item true cs) fun e => _ : Except Stop _) = _
      rw [hitems]
      rfl
    have hcloseList : closeList (']' :: rest) = .ok ((), rest) := by
      have hpeek : peek (']' :: rest) = .ok (some ']', ']' :: rest) := peek_cons rfl
      rw [closeList, bind_of_eq hpeek]
      rfl
    rw [inList, bind_of_eq hplacing, bind_of_eq hcloseList]
    rfl
  have hget : ∀ cs, items true item true cs = itemsWithin true item cs true cs := fun _ => rfl
  have hlist : ∀ {cs}, items true item true cs = .ok (as, ']' :: rest) →
      list item (spaces ++ '[' :: cs) = .ok (as, rest) := by
    intro cs hitems
    rw [list, bind_of_eq (peek_of_spaces hs rfl)]
    exact (bind_of_eq drop_cons).trans (hclose hitems)
  cases h with
  | nil =>
    refine hlist ?_
    have hanother : anotherItem true true (']' :: rest) = .ok (false, ']' :: rest) := by
      have hpeek : peek (']' :: rest) = .ok (some ']', ']' :: rest) := peek_cons rfl
      rw [anotherItem, bind_of_eq hpeek]
      rfl
    rw [hget]
    change itemsWithin true item (']' :: rest) true (']' :: rest) = _
    rw [itemsWithin, bind_of_eq hanother]
    rfl
  | @cons j a js as hj others =>
    rw [write]
    simp only [List.cons_append, List.append_assoc]
    refine hlist ?_
    rw [hget]
    have hfuel : js.length < (List.replicate (2 * (level + 1)) ' ' ++ (write (level + 1) j ++
        (writeItems (level + 1) js ++ (newline level ++ ']' :: rest)))).length := by
      have := @length_le_writeItems (level + 1) js
      simp only [List.length_append, List.length_cons, newline]
      omega
    exact itemsWithin_item (anotherItem_first hj.1) hj.2 ended_writeItems
      (itemsWithin_writeItems others hfuel)

/-! ### Values of any kind -/

/-- A value is looked for behind spaces. -/
theorem value_of_spaces {depth : Nat} {spaces : List Char} (hs : ∀ c ∈ spaces, isSpace c = true)
    {c : Char} (hc : isSpace c = false) : ∃ d fuel,
    value depth (spaces ++ c :: cs) = valueWithin true (d :: fuel) depth (c :: cs) := by
  obtain ⟨d, fuel, hfuel⟩ : ∃ d fuel, spaces ++ c :: cs = d :: fuel := by
    refine List.exists_cons_of_length_pos ?_
    rw [List.length_append, List.length_cons]
    omega
  have hvalue : ∀ cs, value depth cs = valueWithin true cs depth cs := fun _ => rfl
  refine ⟨d, fuel, ?_⟩
  rw [hvalue, hfuel, valueWithin, ← hfuel, bind_of_eq (peek_of_spaces hs hc),
    bind_of_eq (peek_cons hc)]

/-- A text is read where any value may be. -/
theorem value_reads_text {depth : Nat} (s : String) : Reads (value depth) (.text s) (.text s) := by
  intro level spaces rest hs _
  rw [write, quote, List.cons_append, List.cons_append]
  obtain ⟨d, fuel, hvalue⟩ := @value_of_spaces ((s.toList.flatMap escape ++ ['"']) ++ rest) depth
    spaces hs '"' rfl
  have hquoted : quotedRest true ((s.toList.flatMap escape ++ ['"']) ++ rest) = .ok (s, rest) := by
    rw [List.append_assoc]
    exact quotedRest_quote s
  have hpeek : peek ('"' :: ((s.toList.flatMap escape ++ ['"']) ++ rest)) =
      .ok (some '"', '"' :: ((s.toList.flatMap escape ++ ['"']) ++ rest)) := peek_cons rfl
  rw [hvalue, valueWithin, bind_of_eq hpeek]
  exact (bind_of_eq drop_cons).trans (bind_of_eq hquoted)

theorem value_reads_null {depth : Nat} : Reads (value depth) .null .null := by
  intro level spaces rest hs _
  obtain ⟨d, fuel, hvalue⟩ := @value_of_spaces ('u' :: 'l' :: 'l' :: rest) depth spaces hs 'n' rfl
  have hpeek : peek ('n' :: 'u' :: 'l' :: 'l' :: rest) =
      .ok (some 'n', 'n' :: 'u' :: 'l' :: 'l' :: rest) := peek_cons rfl
  change value depth (spaces ++ 'n' :: 'u' :: 'l' :: 'l' :: rest) = _
  rw [hvalue, valueWithin, bind_of_eq hpeek]
  rfl

theorem value_reads_bool {depth : Nat} (b : Bool) : Reads (value depth) (.bool b) (.bool b) := by
  intro level spaces rest hs _
  cases b with
  | false =>
    obtain ⟨d, fuel, hvalue⟩ :=
      @value_of_spaces ('a' :: 'l' :: 's' :: 'e' :: rest) depth spaces hs 'f' rfl
    have hpeek : peek ('f' :: 'a' :: 'l' :: 's' :: 'e' :: rest) =
        .ok (some 'f', 'f' :: 'a' :: 'l' :: 's' :: 'e' :: rest) := peek_cons rfl
    change value depth (spaces ++ 'f' :: 'a' :: 'l' :: 's' :: 'e' :: rest) = _
    rw [hvalue, valueWithin, bind_of_eq hpeek]
    rfl
  | true =>
    obtain ⟨d, fuel, hvalue⟩ :=
      @value_of_spaces ('r' :: 'u' :: 'e' :: rest) depth spaces hs 't' rfl
    have hpeek : peek ('t' :: 'r' :: 'u' :: 'e' :: rest) =
        .ok (some 't', 't' :: 'r' :: 'u' :: 'e' :: rest) := peek_cons rfl
    change value depth (spaces ++ 't' :: 'r' :: 'u' :: 'e' :: rest) = _
    rw [hvalue, valueWithin, bind_of_eq hpeek]
    rfl

/-! ### The number one -/

theorem ended_cons {c : Char} (h : Ended (c :: rest)) :
    isDigit c = false ∧ c ≠ '.' ∧ c ≠ 'e' ∧ c ≠ 'E' := by
  simpa [Bool.or_eq_false_iff, and_assoc] using h c rfl

theorem numeral_one (h : Ended rest) :
    numeral true ('1' :: rest) = .ok ({ negative := false, whole := ['1'] }, rest) := by
  have hget : ∀ cs, (get : Reader (List Char)) cs = .ok (cs, cs) := fun _ => rfl
  have hdigits : digits ('1' :: rest) = .ok (['1'], rest) := by
    change Except.ok (('1' :: rest).takeWhile isDigit, ('1' :: rest).dropWhile isDigit) = _
    rw [List.takeWhile_cons_of_pos (by decide), List.dropWhile_cons_of_pos (by decide)]
    cases rest with
    | nil => rfl
    | cons c rest =>
      obtain ⟨hc, -⟩ := ended_cons h
      rw [List.takeWhile_cons_of_neg (by simp [hc]), List.dropWhile_cons_of_neg (by simp [hc])]
  -- What follows is neither a fraction nor an exponent.
  have hdot : (rest.head? == some '.') = false := by
    cases rest with
    | nil => rfl
    | cons c rest => simp [(ended_cons h).2.1]
  have hexponent : (rest.head? == some 'e' || rest.head? == some 'E') = false := by
    cases rest with
    | nil => rfl
    | cons c rest => simp [(ended_cons h).2.2]
  have hsign : (('1' :: rest).head? == some '-') = false := rfl
  rw [numeral, bind_of_eq (hget _), hsign]
  refine (bind_of_eq (hget _)).trans ((bind_of_eq hdigits).trans ((bind_of_eq (hget _)).trans ?_))
  rw [hdot]
  refine (bind_of_eq (hget _)).trans ((bind_of_eq (hget _)).trans ?_)
  rw [hexponent]
  rfl

theorem natural_reads_one {limit : Nat} (hlimit : 1 ≤ limit) {wanted : String} :
    Reads (natural limit wanted) (.ofNat 1) 1 := by
  intro level spaces rest hs hrest
  change natural limit wanted (spaces ++ '1' :: rest) = _
  have hnumeral : boundedNumeral ('1' :: rest) =
      .ok ({ negative := false, whole := ['1'] }, rest) := by
    rw [boundedNumeral, bind_of_eq (numeral_one hrest)]
    rfl
  rw [natural, bind_of_eq (peek_of_spaces hs rfl)]
  refine (bind_of_eq hnumeral).trans ?_
  change (if 0 ≤ (1 : Int) ∧ (1 : Int) ≤ limit then pure (1 : Int).toNat else _ : Reader Nat) rest = _
  rw [if_pos ⟨by decide, by exact_mod_cast hlimit⟩]
  rfl

/-- A value that makes up a line is read as it was written. -/
theorem run_render {j : Json} (h : Reads r j a) : r.run (j.render ++ "\n") = .ok a := by
  have hread : r (j.render ++ "\n").toList = .ok (a, ['\n']) := by
    rw [String.toList_append, toList_render]
    exact h 0 [] ['\n'] (by simp) (by simp [Ended, isDigit])
  rw [run, bind_of_eq hread]
  rfl

end ImportIndex.Json.Reader
