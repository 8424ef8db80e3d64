import Rpm.Error
import Rpm.Proofs.Bytes
import Rpm.Proofs.Except

/-!
Readers that take exactly some bytes.

Such a reader gives the same whatever follows these bytes, and leaves what follows; a source that
ends before they do is found to be cut off. Readers in turn take the bytes of one after those of
the other.
-/

namespace Rpm

/-- Whether an error says that a source ends too early. A lead that is cut off is taken for none. -/
inductive Error.SaysTruncated : Error → Prop
  | lead : SaysTruncated .badLeadMagic
  | header (part : SectionPart) : SaysTruncated (.headerTruncated part)

/-- Whether a reader takes exactly these bytes. What it gives depends on nothing else but the source
that it leaves. -/
structure Takes {α : Type} (reader : Source → Except Error α) (bytes : ByteArray)
    (result : Source → α) : Prop where
  reads : ∀ rest failure, reader ⟨bytes ++ rest, failure⟩ = .ok (result ⟨rest, failure⟩)
  truncated : ∀ k < bytes.size, ∃ e, reader (Source.ofBytes (bytes.extract 0 k)) = .error e ∧
    e.SaysTruncated

namespace Takes

variable {α β : Type} {reader : Source → Except Error α} {result : Source → α}

lemma nothing (h : ∀ s, reader s = .ok (result s)) : Takes reader ByteArray.empty result where
  reads rest failure := by
    rw [ByteArray.empty_append]
    exact h _
  truncated k hk := absurd hk (Nat.not_lt_zero k)

lemma readExact {bytes : ByteArray} {n : Nat} {wrap : StreamError → Error} (hn : n = bytes.size)
    (hwrap : (wrap .unexpectedEnd).SaysTruncated) :
    Takes (fun s => (s.readExact n).mapError wrap) bytes fun s => (bytes, s) where
  reads rest failure := by
    rw [Source.readExact_append rest failure hn]
    rfl
  truncated k hk := by
    have hsize : (bytes.extract 0 k).size = k := size_extract_of_le (by omega)
    have hshort : (Source.ofBytes (bytes.extract 0 k)).readExact n = .error .unexpectedEnd :=
      if_neg (show ¬n ≤ (bytes.extract 0 k).size by omega)
    exact ⟨_, by rw [hshort, Except.mapError], hwrap⟩

/-- **Readers in turn.** The second one may depend on what the first one gave. -/
lemma bind {next : α → Except Error β} {final : Source → β} {front back : ByteArray}
    (hfirst : Takes reader front result) (hnext : Takes (fun s => next (result s)) back final) :
    Takes (fun s => reader s >>= next) (front ++ back) final where
  reads rest failure := by
    rw [ByteArray.append_assoc, hfirst.reads]
    exact hnext.reads rest failure
  truncated k hk := by
    rw [ByteArray.size_append] at hk
    rcases Nat.lt_or_ge k front.size with hlt | hge
    · -- The source ends within what the first reader takes.
      obtain ⟨e, he, hsays⟩ := hfirst.truncated k hlt
      refine ⟨e, ?_, hsays⟩
      rw [extract_append_of_le back (Nat.le_of_lt hlt), he]
      rfl
    · obtain ⟨j, rfl⟩ := Nat.exists_eq_add_of_le hge
      obtain ⟨e, he, hsays⟩ := hnext.truncated j (by omega)
      refine ⟨e, ?_, hsays⟩
      rw [extract_append_add, Source.ofBytes, hfirst.reads]
      exact he

lemma andThen {bytes : ByteArray} {next : α → Except Error β} {final : Source → β}
    (hreader : Takes reader bytes result) (hnext : ∀ s, next (result s) = .ok (final s)) :
    Takes (fun s => reader s >>= next) bytes final := by
  rw [← ByteArray.append_empty (b := bytes)]
  exact hreader.bind (nothing hnext)

end Takes

end Rpm
