import MiniWireshark.Lib.Text

/-!
# Texts that are read back

A text written field after field tells its fields apart if each can be split off the front of what
follows. A field of digits ends where the next separator begins; a field from a prefix-free table ends by
itself.

| here | meaning |
| --- | --- |
| `Splits T enc`  | before a tail in `T`, what `enc` writes can be split off and names its argument |
| `Stops p xs`    | `xs` does not go on with a symbol in `p` |
-/

namespace Readback

variable {σ α β : Type} {p : σ → Bool} {T U : List σ → Prop} {enc : α → List σ} {enc' : β → List σ}

def Splits (T : List σ → Prop) (enc : α → List σ) : Prop :=
  ∀ a b xs ys, T xs → T ys → enc a ++ xs = enc b ++ ys → a = b ∧ xs = ys

def Stops (p : σ → Bool) (xs : List σ) : Prop := ∀ x ∈ xs.head?, p x = false

theorem stops_nil : Stops p [] := by
  intro x hx
  cases hx

theorem stops_cons {x : σ} {xs : List σ} (hx : p x = false) : Stops p (x :: xs) := by
  intro y hy
  cases hy
  exact hx

theorem Splits.injective (h : Splits T enc) (hT : T []) : Function.Injective enc := by
  intro a b hab
  exact (h a b [] [] hT hT (by rw [hab])).1

theorem Splits.comp (h : Splits T enc) {g : β → α} (hg : Function.Injective g) : Splits T fun b => enc (g b) := by
  intro a b xs ys hxs hys heq
  obtain ⟨hab, htail⟩ := h (g a) (g b) xs ys hxs hys heq
  exact ⟨hg hab, htail⟩

/-! ## Single fields -/

/-- What is left of a text without the symbols of `p` in front. -/
theorem dropWhile_append_of_stops {xs ys : List σ} (hxs : ∀ x ∈ xs, p x = true) (hys : Stops p ys) :
    (xs ++ ys).dropWhile p = ys := by
  rw [List.dropWhile_append_of_pos hxs]
  cases ys with
  | nil => rfl
  | cons y ys => rw [List.dropWhile_cons_of_neg (by rw [hys y rfl]; exact Bool.false_ne_true)]

/-- A field of symbols of `p` ends where the first other one stands. -/
theorem Splits.span (hinj : Function.Injective enc) (hall : ∀ a, ∀ x ∈ enc a, p x = true) : Splits (Stops p) enc := by
  intro a b xs ys hxs hys h
  have htail : xs = ys := by
    rw [← dropWhile_append_of_stops (hall a) hxs, h, dropWhile_append_of_stops (hall b) hys]
  subst htail
  exact ⟨hinj (List.append_cancel_right h), rfl⟩

/-- Code words of which none begins another one. -/
theorem Splits.prefixFree (h : ∀ a b, enc a <+: enc b → a = b) : Splits (fun _ => True) enc := by
  intro a b xs ys _ _ heq
  have hab : a = b := by
    rcases List.prefix_or_prefix_of_prefix (List.prefix_append (enc a) xs) (heq ▸ List.prefix_append (enc b) ys) with
      hpre | hpre
    · exact h a b hpre
    · exact (h b a hpre).symm
  subst hab
  exact ⟨rfl, List.append_cancel_left heq⟩

/-! ## Fields one after the other -/

theorem Splits.pair (h : Splits T enc) (h' : Splits U enc') (hT : ∀ b xs, U xs → T (enc' b ++ xs)) :
    Splits U fun q : α × β => enc q.1 ++ enc' q.2 := by
  intro ⟨a, b⟩ ⟨c, d⟩ xs ys hxs hys heq
  rw [List.append_assoc, List.append_assoc] at heq
  obtain ⟨hac, hrest⟩ := h a c _ _ (hT b xs hxs) (hT d ys hys) heq
  obtain ⟨hbd, htail⟩ := h' b d xs ys hxs hys hrest
  exact ⟨Prod.ext hac hbd, htail⟩

/-- Fixed text in front. -/
theorem Splits.lit (w : List σ) (h : Splits T enc) : Splits T fun a => w ++ enc a := by
  intro a b xs ys hxs hys heq
  rw [List.append_assoc, List.append_assoc] at heq
  exact h a b xs ys hxs hys (List.append_cancel_left heq)

/-- Two fields and a separator, whose first symbol the first field does not hold. -/
theorem Splits.sep (h : Splits (Stops p) enc) (x : σ) (w : List σ) (hx : p x = false) (h' : Splits U enc') :
    Splits U fun q : α × β => enc q.1 ++ (x :: w ++ enc' q.2) :=
  h.pair (h'.lit (x :: w)) fun _ _ _ => stops_cons hx

/-! ## Numbers -/

theorem splits_nat : Splits (Stops Char.isDigit) fun n : Nat => (toString n).toList := by
  refine Splits.span ?_ ?_
  · intro m n h
    simp only [Text.toList_toString] at h
    exact Text.toDigits_inj.1 h
  · intro n c hc
    rw [Text.toList_toString] at hc
    exact Text.isDigit_of_mem_toDigits hc

theorem splits_int : Splits (Stops Text.isNumChar) fun z : Int => (toString z).toList := by
  refine Splits.span ?_ fun z c hc => Text.isNumChar_of_mem hc
  intro y z h
  exact Text.toString_int_inj.1 (String.toList_inj.1 h)

/-! ## Strings -/

section
variable {p : Char → Bool} {T : List Char → Prop} {E : α → String} {t u w : String} {a b : α}

theorem stops_lit {c : Char} {cs : List Char} (hw : w.toList = c :: cs) (hc : p c = false) :
    Stops p (w ++ t).toList := by
  rw [String.toList_append, hw]
  exact stops_cons hc

/-- A field behind fixed text is told by the whole text. -/
theorem Splits.field (hs : Splits T fun a => (E a).toList) (ht : T t.toList) (hu : T u.toList)
    (h : w ++ (E a ++ t) = w ++ (E b ++ u)) : a = b := by
  have h := congrArg String.toList ((String.append_right_inj w).1 h)
  rw [String.toList_append, String.toList_append] at h
  exact (hs a b _ _ ht hu h).1

end

end Readback
