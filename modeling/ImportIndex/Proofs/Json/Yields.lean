import ImportIndex.Json.Reader

/-!
# What readers come to

Not every text that is read was written: members come in another order or twice, records as lists,
texts with other escapes. What can be said of all of them is what a reader comes to, wherever it takes
a value off the front of a text (`Reader.Yields`). Readers of lists, objects and records come to values
that are made of what the readers of their parts come to (`Yields.list`, `Yields.object`,
`Yields.record`).
-/

namespace ImportIndex.Json.Reader

variable {α β σ : Type} {r : Reader α} {f : α → Reader β} {P : α → Prop} {Q : β → Prop}
  {inv : σ → Prop} {member : σ → String → Reader σ} {fields : List (Field σ)} {s : σ}

/-- Whether `P` is true of whatever a reader takes off the front of a text. -/
def Yields (r : Reader α) (P : α → Prop) : Prop :=
  ∀ cs a rest, r cs = .ok (a, rest) → P a

namespace Yields

theorem pure {a : α} (h : P a) : Yields (Pure.pure a) P := by
  intro cs b rest hb
  obtain ⟨rfl, -⟩ := Prod.mk.inj (Except.ok.inj hb)
  exact h

theorem bind (hr : Yields r P) (hf : ∀ a, P a → Yields (f a) Q) : Yields (r >>= f) Q := by
  intro cs b rest hb
  change (r cs).bind (fun p => f p.1 p.2) = _ at hb
  cases hrun : r cs with
  | error stop =>
    rw [hrun] at hb
    cases hb
  | ok p =>
    rw [hrun] at hb
    exact hf p.1 (hr cs p.1 p.2 hrun) p.2 b rest hb

/-- What is taken off first does not matter. -/
theorem after (hf : ∀ a, Yields (f a) Q) : Yields (r >>= f) Q :=
  Yields.bind (fun _ _ _ _ => trivial) fun a (_ : True) => hf a

/-- A reader that stops comes to nothing. -/
theorem of_stop (h : ∀ cs, ∃ stop, r cs = .error stop) : Yields r P := by
  intro cs a rest ha
  obtain ⟨stop, hstop⟩ := h cs
  rw [hstop] at ha
  cases ha

theorem stop {reason : Reason} : Yields (Reader.stop reason) P := of_stop fun _ => ⟨_, rfl⟩

theorem stopNext {breach : Breach} : Yields (Reader.stopNext breach) P := of_stop fun _ => ⟨_, rfl⟩

theorem stopUnplaced {difference : Mismatch} : Yields (Reader.stopUnplaced difference) P :=
  of_stop fun _ => ⟨_, rfl⟩

theorem placing {place : List Char → List Char} (h : Yields r P) :
    Yields (Reader.placing place r) P := by
  intro cs a rest ha
  change (tryCatch (r cs) fun e => _ : Except Stop _) = _ at ha
  cases hrun : r cs with
  | ok p =>
    rw [hrun] at ha
    exact h cs a rest (hrun.trans ha)
  | error e =>
    rw [hrun] at ha
    cases e <;> cases ha

theorem inList (h : Yields r P) : Yields (Reader.inList r) P :=
  h.placing.bind fun _ ha => after fun _ => pure ha

theorem inObject (h : Yields r P) : Yields (Reader.inObject r) P :=
  h.placing.bind fun _ ha => after fun _ => pure ha

/-- Where there is another value than wanted, reading stops. -/
theorem mismatched {wanted : String} : Yields (Reader.mismatched wanted) P := by
  refine after fun next => ?_
  split
  · exact stop
  · exact after fun _ => after fun _ => stop
  · exact after fun _ => after fun _ => stop
  · exact after fun _ => after fun _ => stop
  · exact after fun _ => after fun _ => stop
  · exact stop
  · exact stop
  · split
    · exact after fun _ => stop
    · exact stopNext

/-! ### Lists -/

theorem itemsWithin {strict first : Bool} (h : Yields r P) (fuel : List Char) :
    Yields (Reader.itemsWithin strict r fuel first) fun as => ∀ a ∈ as, P a := by
  induction fuel generalizing first with
  | nil => exact stop
  | cons _ fuel ih =>
    refine after fun another => ?_
    split
    · exact h.bind fun a ha => ih.bind fun as has => pure (List.forall_mem_cons.2 ⟨ha, has⟩)
    · exact pure (List.forall_mem_nil _)

theorem list (h : Yields r P) : Yields (Reader.list r) fun as => ∀ a ∈ as, P a := by
  refine after fun next => ?_
  split
  · exact after fun _ => inList (after fun fuel => itemsWithin h fuel)
  · exact mismatched

/-! ### Objects -/

theorem membersWithin {strict first : Bool}
    (h : ∀ s name, inv s → Yields (member s name) inv) (hs : inv s) (fuel : List Char) :
    Yields (Reader.membersWithin strict member fuel first s) inv := by
  induction fuel generalizing first s with
  | nil => exact stop
  | cons _ fuel ih =>
    refine after fun another => ?_
    split
    · exact after fun _ => after fun name => (h s name hs).bind fun s' hs' => ih hs'
    · exact pure hs

theorem members {strict : Bool} (h : ∀ s name, inv s → Yields (member s name) inv) (hs : inv s) :
    Yields (Reader.members strict member s) inv :=
  after fun fuel => membersWithin h hs fuel

theorem object (h : ∀ s name, inv s → Yields (member s name) inv) (hs : inv s) :
    Yields (Reader.object member s) inv := by
  refine after fun next => ?_
  split
  · exact after fun _ => inObject (members h hs)
  · exact mismatched

/-! ### Records -/

theorem fieldsInOrder {wanted : String} (h : ∀ field ∈ fields, ∀ s, inv s → Yields (field.read s) inv)
    {n : Nat} (hs : inv s) : Yields (Reader.fieldsInOrder wanted fields n s) inv := by
  induction fields generalizing n s with
  | nil => exact pure hs
  | cons field fields ih =>
    rw [List.forall_mem_cons] at h
    refine after fun another => ?_
    split
    · exact (h.1 s hs).bind fun s' hs' => ih h.2 hs'
    · split
      · exact stopUnplaced
      · exact pure hs

theorem fieldMember {ignoreUnknown : Bool} {name : String} {read : σ × List String}
    (h : ∀ field ∈ fields, ∀ s, inv s → Yields (field.read s) inv) (hs : inv read.1) :
    Yields (Reader.fieldMember fields ignoreUnknown read name) fun read => inv read.1 := by
  rw [Reader.fieldMember]
  split
  · next field hfield =>
    have hread := h field (List.mem_of_find?_eq_some hfield) read.1 hs
    split
    · exact stopUnplaced.bind fun _ (h : False) => h.elim
    · exact after fun _ => hread.bind fun s' hs' => pure hs'
  · split
    · exact after fun _ => after fun _ => pure hs
    · exact stopUnplaced

/-- A record is made by the readers of its fields, from whatever it is read. -/
theorem record {wanted : String} {ignoreUnknown : Bool}
    (h : ∀ field ∈ fields, ∀ s, inv s → Yields (field.read s) inv) (hs : inv s) :
    Yields (Reader.record wanted fields ignoreUnknown s) inv := by
  refine after fun next => ?_
  split
  · exact after fun _ => inList (fieldsInOrder h hs)
  · have hfields : Yields (Reader.members true (Reader.fieldMember fields ignoreUnknown) (s, []))
        fun read => inv read.1 := members (fun read name hread => fieldMember h hread) hs
    refine after fun _ => inObject (hfields.bind fun ⟨s', names⟩ hread => ?_)
    dsimp only
    split
    · exact stopUnplaced
    · exact pure hread
  · exact mismatched

end Yields

/-- What is read from a whole text. -/
theorem Yields.run {source : String} {a : α} (h : Yields r P) (ha : r.run source = .ok a) : P a := by
  have hfinish : Yields (do let a ← r; finish; return a : Reader α) P :=
    h.bind fun _ ha => Yields.after fun _ => Yields.pure ha
  rw [Reader.run] at ha
  split at ha
  · next a' rest hrun =>
    obtain rfl := Except.ok.inj ha
    exact hfinish _ _ _ hrun
  · cases ha

end ImportIndex.Json.Reader
