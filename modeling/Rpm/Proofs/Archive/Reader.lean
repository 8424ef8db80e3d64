import Mathlib.Data.List.Forall2
import Rpm.Archive.Cursor
import Rpm.Proofs.Archive.Member

/-!
What readers of an archive take from a source.

Whatever is read is read from the front: a reader takes some bytes, gives the same whatever follows
them, leaves what follows, and finds a source that ends before they do to be cut off. Readers in turn
do so too, and that is all a member header is read by. So a header can be moved to any other place,
and a source can be cut anywhere in it, without another look at its fields.
-/

namespace Rpm.Archive

/-! ### Readers -/

/-- Whether a reader takes exactly these bytes, and gives this for them. -/
structure Consumes {α : Type} (reader : Source → Except ArchiveError (α × Source))
    (bytes : ByteArray) (a : α) : Prop where
  reads : ∀ rest failure, reader ⟨bytes ++ rest, failure⟩ = .ok (a, ⟨rest, failure⟩)
  truncated : ∀ k < bytes.size, ∀ failure,
    reader ⟨bytes.extract 0 k, failure⟩ = .error (.stream (failure.getD .unexpectedEnd))

/-- Whether a reader takes some bytes from the front whenever it gives something. -/
def Sequential {α : Type} (reader : Source → Except ArchiveError (α × Source)) : Prop :=
  ∀ s a s', reader s = .ok (a, s') →
    ∃ bytes, s = ⟨bytes ++ s'.rest, s'.failure⟩ ∧ Consumes reader bytes a

section Readers

variable {α β : Type} {reader : Source → Except ArchiveError (α × Source)}

lemma Consumes.bind {next : α → Source → Except ArchiveError (β × Source)} {front back : ByteArray}
    {a : α} {b : β} (hfirst : Consumes reader front a) (hnext : Consumes (next a) back b) :
    Consumes (fun s => reader s >>= fun p => next p.1 p.2) (front ++ back) b where
  reads rest failure := by
    rw [ByteArray.append_assoc, hfirst.reads]
    exact hnext.reads rest failure
  truncated k hk failure := by
    rw [ByteArray.size_append] at hk
    rcases Nat.lt_or_ge k front.size with hlt | hge
    · rw [extract_append_of_le back (Nat.le_of_lt hlt), hfirst.truncated k hlt]
      rfl
    · obtain ⟨j, rfl⟩ := Nat.exists_eq_add_of_le hge
      rw [extract_append_add, hfirst.reads]
      exact hnext.truncated j (by omega) failure

namespace Sequential

lemma ofExcept (x : Except ArchiveError α) :
    Sequential fun s => x.map fun a => (a, s) := by
  intro s a s' h
  obtain ⟨a', rfl, hpair⟩ := map_eq_ok_iff.mp h
  obtain ⟨rfl, rfl⟩ := Prod.mk.inj hpair
  refine ⟨ByteArray.empty, by rw [ByteArray.empty_append], fun rest failure => ?_,
    fun k hk => absurd hk (Nat.not_lt_zero k)⟩
  rw [ByteArray.empty_append]
  rfl

lemma readExact (n : Nat) :
    Sequential fun s => (s.readExact n).mapError ArchiveError.stream := by
  intro s bytes s' h
  obtain ⟨hsize, hrest, hfailure⟩ := Source.readExact_eq_ok (mapError_eq_ok_iff.mp h)
  refine ⟨bytes, ?_, fun rest failure => ?_, fun k hk failure => ?_⟩
  · rw [← hrest, hfailure]
  · rw [Source.readExact_append rest failure hsize.symm]
    rfl
  · have hshort : ¬n ≤ (bytes.extract 0 k).size := by
      rw [ByteArray.size_extract]
      omega
    simp only [Source.readExact, if_neg hshort, Except.mapError]

/-- **Readers in turn.** The second one may depend on what the first one gave. -/
lemma bind {next : α → Source → Except ArchiveError (β × Source)} (hreader : Sequential reader)
    (hnext : ∀ a, Sequential (next a)) :
    Sequential fun s => reader s >>= fun p => next p.1 p.2 := by
  intro s b s'' h
  obtain ⟨⟨a, s'⟩, ha, hb⟩ := bind_eq_ok_iff.mp h
  obtain ⟨front, rfl, hfront⟩ := hreader _ _ _ ha
  obtain ⟨back, rfl, hback⟩ := hnext a _ _ _ hb
  exact ⟨front ++ back, by rw [ByteArray.append_assoc], hfront.bind hback⟩

end Sequential

end Readers

/-! ### Fields -/

/-- The number in the bytes of a field. -/
def ofFieldBytes (bytes : ByteArray) : Except ArchiveError UInt32 :=
  match String.fromUTF8? bytes with
  | none => .error .fieldNotText
  | some text =>
    match ofFieldText? text with
    | none => .error (.fieldNotHex text)
    | some n => .ok n

lemma readField_eq (s : Source) :
    readField s = (s.readExact 8).mapError .stream >>= fun p =>
      (ofFieldBytes p.1).map fun n => (n, p.2) := by
  unfold readField ofFieldBytes
  congr 1
  funext ⟨bytes, s'⟩
  cases htext : String.fromUTF8? bytes with
  | none =>
    simp only [htext]
    rfl
  | some text => cases hn : ofFieldText? text <;> simp only [htext, hn] <;> rfl

lemma sequential_readField : Sequential readField := by
  have hnext : ∀ bytes, Sequential fun s => (ofFieldBytes bytes).map fun n => (n, s) :=
    fun bytes => .ofExcept (ofFieldBytes bytes)
  rw [funext readField_eq]
  exact (Sequential.readExact 8).bind hnext

/-- **What is read as a field** is the text of one. -/
lemma readField_eq_ok {n : UInt32} {s s' : Source} (h : readField s = .ok (n, s')) :
    ∃ text, Spells text n ∧ s.rest = text.toUTF8 ++ s'.rest := by
  rw [readField_eq, bind_eq_ok_iff] at h
  obtain ⟨⟨bytes, s₁⟩, hbytes, hn⟩ := h
  obtain ⟨n', hvalue, hpair⟩ := map_eq_ok_iff.mp hn
  obtain ⟨rfl, rfl⟩ := Prod.mk.inj hpair
  obtain ⟨hsize, hrest, -⟩ := Source.readExact_eq_ok (mapError_eq_ok_iff.mp hbytes)
  unfold ofFieldBytes at hvalue
  split at hvalue
  · contradiction
  · rename_i text htext
    split at hvalue
    · contradiction
    · rename_i m hm
      obtain rfl := Except.ok.inj hvalue
      obtain rfl := toUTF8_of_fromUTF8? htext
      exact ⟨text, ⟨hsize, hm⟩, hrest⟩

def readFields : Nat → Source → Except ArchiveError (List UInt32 × Source)
  | 0, s => .ok ([], s)
  | count + 1, s => readField s >>= fun p => (readFields count p.2).map fun q => (p.1 :: q.1, q.2)

section Bind

variable {β : Type} (k : List UInt32 × Source → Except ArchiveError β) (s : Source)

lemma readFields_zero_bind : readFields 0 s >>= k = k ([], s) := rfl

lemma readFields_succ_bind (count : Nat) : readFields (count + 1) s >>= k =
    readField s >>= fun p => readFields count p.2 >>= fun q => k (p.1 :: q.1, q.2) := by
  rw [readFields, bind_assoc]
  refine bind_congr fun p => ?_
  cases readFields count p.2 <;> rfl

end Bind

lemma sequential_readFields (count : Nat) : Sequential (readFields count) := by
  induction count with
  | zero => exact Sequential.ofExcept (.ok [])
  | succ count ih =>
    have hcons : ∀ (n : UInt32) ns, Sequential fun s => (.ok (n :: ns, s) : Except ArchiveError _) :=
      fun n ns => .ofExcept (.ok (n :: ns))
    have hmore : ∀ n : UInt32, Sequential fun s =>
        (readFields count s).map fun q => (n :: q.1, q.2) := by
      intro n
      have h := ih.bind (hcons n)
      exact h
    exact sequential_readField.bind hmore

lemma readFields_concat {texts : List String} {ns : List UInt32}
    (h : List.Forall₂ Spells texts ns) (rest : ByteArray) (failure : Option StreamError) :
    readFields texts.length ⟨concat (texts.map String.toUTF8) ++ rest, failure⟩ =
      .ok (ns, ⟨rest, failure⟩) := by
  induction h with
  | nil =>
    rw [List.map_nil, concat_nil, ByteArray.empty_append]
    rfl
  | cons hfirst _ ih =>
    rw [List.map_cons, concat_cons, ByteArray.append_assoc, List.length_cons, readFields,
      hfirst.readField]
    exact congrArg (Except.map _) ih

lemma spells_map (ns : List Nat) : List.Forall₂ Spells (ns.map fieldText) (ns.map UInt32.ofNat) :=
  List.forall₂_map_left_iff.mpr (List.forall₂_map_right_iff.mpr
    (List.forall₂_same.mpr fun n _ => spells_fieldText n))

lemma readFields_eq_ok {count : Nat} {ns : List UInt32} {s s' : Source}
    (h : readFields count s = .ok (ns, s')) :
    ∃ texts, List.Forall₂ Spells texts ns ∧ ns.length = count ∧
      s.rest = concat (texts.map String.toUTF8) ++ s'.rest := by
  induction count generalizing ns s with
  | zero =>
    obtain ⟨rfl, rfl⟩ := Prod.mk.inj (Except.ok.inj h)
    exact ⟨[], .nil, rfl, by rw [List.map_nil, concat_nil, ByteArray.empty_append]⟩
  | succ count ih =>
    obtain ⟨⟨n, s₁⟩, hn, hrest⟩ := bind_eq_ok_iff.mp h
    obtain ⟨⟨ns', s₂⟩, hns, hpair⟩ := map_eq_ok_iff.mp hrest
    obtain ⟨rfl, rfl⟩ := Prod.mk.inj hpair
    obtain ⟨text, htext, hfront⟩ := readField_eq_ok hn
    obtain ⟨texts, htexts, hlength, hback⟩ := ih hns
    refine ⟨text :: texts, .cons htext htexts, congrArg Nat.succ hlength, ?_⟩
    rw [hfront, hback, List.map_cons, concat_cons, ByteArray.append_assoc]

lemma size_concat_of_spells {texts : List String} {ns : List UInt32}
    (h : List.Forall₂ Spells texts ns) :
    (concat (texts.map String.toUTF8)).size = 8 * ns.length := by
  induction h with
  | nil => rfl
  | cons hfirst _ ih =>
    rw [List.map_cons, concat_cons, ByteArray.size_append, hfirst.1, ih, List.length_cons]
    omega

namespace MemberHeader

/-- The header with these numbers in its fields. -/
def ofNumbers (ns : List UInt32) (name : String) : MemberHeader :=
  ⟨ns.getD 0 0, ns.getD 1 0, ns.getD 2 0, ns.getD 3 0, ns.getD 4 0, ns.getD 5 0, ns.getD 6 0,
    ns.getD 7 0, ns.getD 8 0, ns.getD 9 0, ns.getD 10 0, ns.getD 12 0, name⟩

/-- The name in its bytes. -/
def nameOf (bytes : ByteArray) : Except ArchiveError String :=
  match ofTerminated? bytes with
  | none => .error .nameNotText
  | some name => .ok name

/-- Reads what is behind the fields: the name, whose size they say, and the zeros behind it. -/
def readName (ns : List UInt32) (s : Source) : Except ArchiveError (MemberHeader × Source) :=
  (s.readExact (ns.getD 11 0).toNat).mapError .stream >>= fun p =>
    (nameOf p.1).map (fun name => (name, p.2)) >>= fun q =>
      (q.2.readExact (paddingFor 4 (headerSize + (ns.getD 11 0).toNat))).mapError .stream >>=
        fun r => .ok (ofNumbers ns q.1, r.2)

lemma read_eq (s : Source) :
    MemberHeader.read s = readFields 13 s >>= fun p => readName p.1 p.2 := by
  simp only [readFields_succ_bind, readFields_zero_bind]
  unfold MemberHeader.read
  iterate 13 refine bind_congr fun p => ?_
  refine bind_congr fun q => ?_
  simp only [nameOf]
  cases ofTerminated? q.1 <;> rfl

lemma readName_append {ns : List UInt32} {name : String} {padding : ByteArray}
    (hnul : holdsNul name = false) (hsize : (ns.getD 11 0).toNat = name.utf8ByteSize + 1)
    (hpadding : paddingFor 4 (headerSize + (name.utf8ByteSize + 1)) = padding.size)
    (rest : ByteArray) (failure : Option StreamError) :
    readName ns ⟨terminated name ++ (padding ++ rest), failure⟩ =
      .ok (ofNumbers ns name, ⟨rest, failure⟩) := by
  simp only [readName, hsize, Source.readExact_append _ _ (size_terminated name).symm,
    Except.mapError, bind, Except.bind, nameOf, ofTerminated?_terminated hnul, Except.map,
    Source.readExact_append _ _ hpadding]

/-- **A header is read however it is spelled** and whatever fills up its name, and all that follows it
is left. -/
lemma read_of_spells {texts : List String} {ns : List UInt32} {name : String} {padding : ByteArray}
    (hlength : texts.length = 13) (hspells : List.Forall₂ Spells texts ns)
    (hnul : holdsNul name = false) (hsize : (ns.getD 11 0).toNat = name.utf8ByteSize + 1)
    (hpadding : paddingFor 4 (headerSize + (name.utf8ByteSize + 1)) = padding.size)
    (rest : ByteArray) (failure : Option StreamError) :
    MemberHeader.read ⟨concat (texts.map String.toUTF8) ++ (terminated name ++ (padding ++ rest)),
      failure⟩ = .ok (ofNumbers ns name, ⟨rest, failure⟩) := by
  rw [read_eq, ← hlength, readFields_concat hspells]
  exact readName_append hnul hsize hpadding rest failure

lemma ofNumbers_fields (h : MemberHeader) : ofNumbers (h.fields.map UInt32.ofNat) h.name = h := by
  simp [ofNumbers, fields]

/-- **A header is read back** from its bytes. -/
lemma read_bytes {h : MemberHeader} (hl : h.Legible) (rest : ByteArray)
    (failure : Option StreamError) :
    MemberHeader.read ⟨concat (h.fields.map fun n => (fieldText n).toUTF8) ++
      (terminated h.name ++ (h.nameZeros ++ rest)), failure⟩ = .ok (h, ⟨rest, failure⟩) := by
  have hzeros : paddingFor 4 (headerSize + (h.name.utf8ByteSize + 1)) = h.nameZeros.size := by
    rw [nameZeros, size_replicateByte]
  have hread := read_of_spells (by rw [List.length_map]; rfl) (spells_map h.fields) hl.hasNul_eq
    (UInt32.toNat_ofNat_of_lt hl.size_lt) hzeros rest failure
  rwa [List.map_map, ofNumbers_fields] at hread

lemma sequential_readName (ns : List UInt32) : Sequential (readName ns) := by
  have hname : ∀ bytes, Sequential fun s => (nameOf bytes).map fun name => (name, s) :=
    fun bytes => .ofExcept (nameOf bytes)
  have hlast : ∀ name, Sequential fun s =>
      (s.readExact (paddingFor 4 (headerSize + (ns.getD 11 0).toNat))).mapError .stream >>=
        fun r => .ok (ofNumbers ns name, r.2) := by
    intro name
    have h : ∀ _ : ByteArray, Sequential fun s => .ok (ofNumbers ns name, s) :=
      fun _ => .ofExcept (.ok (ofNumbers ns name))
    exact (Sequential.readExact _).bind h
  have hrest : ∀ bytes, Sequential fun s =>
      (nameOf bytes).map (fun name => (name, s)) >>= fun q =>
        (q.2.readExact (paddingFor 4 (headerSize + (ns.getD 11 0).toNat))).mapError .stream >>=
          fun r => .ok (ofNumbers ns q.1, r.2) :=
    fun bytes => (hname bytes).bind hlast
  exact (Sequential.readExact _).bind hrest

/-- **Headers are read from the front**, however they are spelled. -/
lemma sequential_read : Sequential MemberHeader.read := by
  rw [funext read_eq]
  exact (sequential_readFields 13).bind sequential_readName

/-- **What is read behind the fields**: the name, in as many bytes as its field says, and as many more
as fill it up. -/
lemma readName_eq_ok {ns : List UInt32} {h : MemberHeader} {s s' : Source}
    (hread : readName ns s = .ok (h, s')) :
    h = ofNumbers ns h.name ∧ holdsNul h.name = false ∧
      (ns.getD 11 0).toNat = h.name.utf8ByteSize + 1 ∧
      ∃ padding, padding.size = h.nameZeros.size ∧
        s.rest = terminated h.name ++ (padding ++ s'.rest) := by
  simp only [readName, bind_eq_ok_iff, mapError_eq_ok_iff, map_eq_ok_iff, Prod.exists] at hread
  obtain ⟨bytes, s₁, hbytes, name, s₂, ⟨name', hname, hpair⟩, padding, s₃, hpadding, hresult⟩ := hread
  obtain ⟨rfl, rfl⟩ := Prod.mk.inj hpair
  obtain ⟨rfl, rfl⟩ := Prod.mk.inj (Except.ok.inj hresult)
  obtain ⟨hsize, hrest, -⟩ := Source.readExact_eq_ok hbytes
  obtain ⟨hpaddingSize, hpaddingRest, -⟩ := Source.readExact_eq_ok hpadding
  have hterminated : ofTerminated? bytes = some name' := by
    unfold nameOf at hname
    split at hname
    · contradiction
    · rename_i heq
      rw [heq, Except.ok.inj hname]
  obtain ⟨hnul, rfl⟩ := eq_terminated_of_ofTerminated? hterminated
  rw [size_terminated] at hsize
  refine ⟨rfl, hnul, hsize.symm, padding, ?_, ?_⟩
  · rw [hpaddingSize, ← hsize, nameZeros, size_replicateByte]
    rfl
  · rw [hrest, hpaddingRest]
    rfl

lemma legible_of_readName {ns : List UInt32} {h : MemberHeader} {s s' : Source}
    (hread : readName ns s = .ok (h, s')) : h.Legible := by
  obtain ⟨-, hnul, hsize, -⟩ := readName_eq_ok hread
  exact ⟨hnul, hsize ▸ UInt32.toNat_lt _⟩

lemma legible_of_read {h : MemberHeader} {s s' : Source}
    (hread : MemberHeader.read s = .ok (h, s')) : h.Legible := by
  rw [read_eq, bind_eq_ok_iff] at hread
  obtain ⟨p, -, hname⟩ := hread
  exact legible_of_readName hname

/-- **A header takes as many bytes** behind the magic number as it has when it is written. -/
lemma size_of_read {h : MemberHeader} {s s' : Source} (hread : MemberHeader.read s = .ok (h, s')) :
    magic.size + s.rest.size = h.bytes.size + s'.rest.size := by
  rw [read_eq, bind_eq_ok_iff] at hread
  obtain ⟨⟨ns, s₁⟩, hfields, hname⟩ := hread
  obtain ⟨-, -, -, padding, hpadding, hrest⟩ := readName_eq_ok hname
  obtain ⟨texts, hspells, hlength, hfront⟩ := readFields_eq_ok hfields
  have hnumbers : h.fields.length = 13 := rfl
  rw [hfront, hrest, h.bytes_eq]
  simp only [ByteArray.size_append, size_concat_of_spells hspells, hlength,
    size_concat_map _ size_fieldText, hnumbers, hpadding]
  omega

end MemberHeader

end Rpm.Archive
