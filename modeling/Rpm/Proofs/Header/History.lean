import Mathlib.Data.List.Induction
import Mathlib.Logic.Function.Basic
import Rpm.Proofs.Header.Reachability

/-!
Headers as what their history leaves of them.

Several headers start empty and are changed one after another, also from each other. What happened to
one of them is a log of writes and removals, to which a refused value adds nothing. The entries are
what the log leaves in force: each tag where it was first written since it was last removed, with what
was last written to it.
-/

namespace Rpm.Header

/-! ### Edits and their log -/

/-- An operation on a header. The other header it may take from is given by number. -/
inductive Operation (ns : Namespace) where
  | set (tag : Tag ns) (value : Value)
  | setRaw (tag : UInt32) (value : Value)
  | erase (tag : Tag ns)
  | extend (other : Nat)

/-- An operation and the number of the header that it is done to. -/
abbrev Edit (ns : Namespace) := Nat × Operation ns

/-- A value that a tag was given by number, and the tag whose type it was checked against if there was
one. -/
structure Write (ns : Namespace) where
  tag : UInt32
  value : Value
  declared : Option (Tag ns)
  deriving DecidableEq

/-- What happens to a header. -/
inductive Event (ns : Namespace) where
  | write (w : Write ns)
  | removal (tag : UInt32)
  deriving DecidableEq

def Write.entry {ns : Namespace} (w : Write ns) : Entry := ⟨w.tag, w.value⟩

def Event.tag {ns : Namespace} : Event ns → UInt32
  | .write w => w.tag
  | .removal tag => tag

variable {ns : Namespace}

/-- The writes with the one of the same tag moved to the front, or with a new one there. -/
def moveToFront (w : Write ns) (ws : List (Write ns)) : List (Write ns) :=
  (ws.find? (·.tag = w.tag)).getD w :: ws.filter (·.tag ≠ w.tag)

/-- The writes that a log leaves in force, read from its start. A write that is removed later does not
count; any other one takes its place before all that follow, for whatever is written to its tag last. -/
def inForce : List (Event ns) → List (Write ns)
  | [] => []
  | .removal _ :: log => inForce log
  | .write w :: log =>
    if .removal w.tag ∈ log then inForce log else moveToFront w (inForce log)

namespace Operation

/-- The header after an operation. One that is refused leaves it as it is. -/
def apply (headers : Nat → Header ns) (h : Header ns) : Operation ns → Header ns
  | set tag value =>
    match h.set tag value with
    | .ok h' => h'
    | .error _ => h
  | setRaw tag value => h.setRaw tag value
  | erase tag => h.erase tag
  | extend other => h.extend (headers other)

/-- What an operation adds to the log. A value that is not of the type of its tag is refused, and a
header is extended by what is in force in the other one. -/
def events (logs : Nat → List (Event ns)) : Operation ns → List (Event ns)
  | set tag value =>
    if value.type? = some tag.type then [.write ⟨tag.id, value, some tag⟩] else []
  | setRaw tag value => [.write ⟨tag, value, none⟩]
  | erase tag => [.removal tag.id]
  | extend other => (inForce (logs other)).map .write

end Operation

def run (edits : List (Edit ns)) : Nat → Header ns :=
  edits.foldl (fun headers e => Function.update headers e.1 (e.2.apply headers (headers e.1)))
    fun _ => .empty

/-- What happened to the headers by some edits. -/
def log (edits : List (Edit ns)) : Nat → List (Event ns) :=
  edits.foldl (fun logs e => Function.update logs e.1 (logs e.1 ++ e.2.events logs)) fun _ => []

/-- Whether nothing happened to the tag after the write. -/
def Write.IsLast (w : Write ns) (log : List (Event ns)) : Prop :=
  ∃ before after, log = before ++ .write w :: after ∧ ∀ e ∈ after, e.tag ≠ w.tag

/-- Where a tag was written for the first time since it was last removed. -/
def placeOf (tag : UInt32) : List (Event ns) → Option Nat
  | [] => none
  | e :: log =>
    if e.tag = tag ∧ .removal tag ∉ e :: log then some 0 else (placeOf tag log).map (· + 1)

/-- Whether the place of a tag is before that of another one. -/
def ComesBefore (log : List (Event ns)) (tag tag' : UInt32) : Prop :=
  ∃ m n, placeOf tag log = some m ∧ placeOf tag' log = some n ∧ m < n

/-- Whether a write comes from one of the edits: from setting a tag if it was checked, with a value of
the type of the tag, and otherwise from setting a number. -/
def Write.CameFrom (w : Write ns) (edits : List (Edit ns)) : Prop :=
  match w.declared with
  | some tag => w.tag = tag.id ∧ w.value.type? = some tag.type ∧ ∃ i, (i, .set tag w.value) ∈ edits
  | none => ∃ i, (i, .setRaw w.tag w.value) ∈ edits

/-- Whether a header is the map, in order of insertion, that its log leaves. -/
structure Follows (h : Header ns) (log : List (Event ns)) : Prop where
  distinct : h.Distinct
  entries : h.entries = (inForce log).map Write.entry
  getRaw : ∀ tag value, h.getRaw tag = some value ↔
    ∃ w : Write ns, w.IsLast log ∧ w.tag = tag ∧ w.value = value
  ordered : (h.entries.map Entry.tag).Pairwise (ComesBefore log)

variable {w u : Write ns} {ws : List (Write ns)} {past : List (Event ns)} {tag : UInt32}

/-! ### Writes in force -/

lemma tag_getD_find? (w : Write ns) (ws : List (Write ns)) :
    ((ws.find? (·.tag = w.tag)).getD w).tag = w.tag := by
  cases hfind : ws.find? (·.tag = w.tag) with
  | none => rfl
  | some v => simpa using List.find?_some hfind

lemma filter_moveToFront_self (w : Write ns) (ws : List (Write ns)) :
    (moveToFront w ws).filter (·.tag ≠ w.tag) = ws.filter (·.tag ≠ w.tag) := by
  rw [moveToFront, List.filter_cons_of_neg (by simp [tag_getD_find?]), List.filter_filter]
  simp only [Bool.and_self]

lemma filter_moveToFront_of_ne (h : w.tag ≠ tag) (ws : List (Write ns)) :
    (moveToFront w ws).filter (·.tag ≠ tag) = moveToFront w (ws.filter (·.tag ≠ tag)) := by
  have hfind : (ws.filter (·.tag ≠ tag)).find? (·.tag = w.tag) = ws.find? (·.tag = w.tag) := by
    rw [List.find?_filter]
    congr 1
    funext v
    by_cases hv : v.tag = w.tag
    · simp [hv, h]
    · simp [hv]
  rw [moveToFront, moveToFront, hfind,
    List.filter_cons_of_pos (by simpa [tag_getD_find?] using h), List.filter_filter,
    List.filter_filter]
  simp only [Bool.and_comm]

lemma nodup_inForce (past : List (Event ns)) : ((inForce past).map Write.tag).Nodup := by
  induction past with
  | nil => exact List.nodup_nil
  | cons e past ih =>
    cases e with
    | removal => exact ih
    | write w =>
      rw [inForce]
      split_ifs
      · exact ih
      · rw [moveToFront, List.map_cons, List.nodup_cons, tag_getD_find?]
        refine ⟨fun hmem => ?_, ih.sublist (List.filter_sublist.map Write.tag)⟩
        obtain ⟨v, hv, htag⟩ := List.mem_map.mp hmem
        exact of_decide_eq_true (List.mem_filter.mp hv).2 htag

/-! ### One more event -/

/-- The writes with that of the same tag replaced where it stands, or with one more at the end. -/
def put (w : Write ns) : List (Write ns) → List (Write ns)
  | [] => [w]
  | u :: ws => if u.tag = w.tag then w :: ws else u :: put w ws

lemma map_entry_put (w : Write ns) (ws : List (Write ns)) :
    (put w ws).map Write.entry = assign w.tag w.value (ws.map Write.entry) := by
  induction ws with
  | nil => rfl
  | cons u ws ih =>
    rw [put, List.map_cons, assign, ← ih]
    exact apply_ite (List.map Write.entry) _ _ _

lemma find?_put_self (w : Write ns) (ws : List (Write ns)) :
    (put w ws).find? (·.tag = w.tag) = some w := by
  induction ws with
  | nil => simp [put]
  | cons u ws ih =>
    rw [put]
    split_ifs with hu
    · simp
    · rw [List.find?_cons_of_neg (by simpa using hu), ih]

lemma find?_put_of_ne (h : w.tag ≠ tag) (ws : List (Write ns)) :
    (put w ws).find? (·.tag = tag) = ws.find? (·.tag = tag) := by
  induction ws with
  | nil => simp [put, h]
  | cons u ws ih =>
    rw [put]
    split_ifs with hu
    · simp [h, hu]
    · simp [List.find?_cons, ih]

lemma filter_put_self (w : Write ns) (ws : List (Write ns)) :
    (put w ws).filter (·.tag ≠ w.tag) = ws.filter (·.tag ≠ w.tag) := by
  induction ws with
  | nil => simp [put]
  | cons u ws ih =>
    rw [put]
    split_ifs with hu
    · simp [hu]
    · rw [List.filter_cons, List.filter_cons, ih]

lemma filter_put_of_ne (h : w.tag ≠ tag) (ws : List (Write ns)) :
    (put w ws).filter (·.tag ≠ tag) = put w (ws.filter (·.tag ≠ tag)) := by
  induction ws with
  | nil => simp [put, h]
  | cons u ws ih =>
    rw [put]
    split_ifs with hu
    · simp [put, hu, h]
    · by_cases ht : u.tag = tag
      · simpa [ht] using ih
      · simpa [put, hu, ht] using ih

lemma moveToFront_put (u w : Write ns) (ws : List (Write ns)) :
    moveToFront u (put w ws) = put w (moveToFront u ws) := by
  by_cases h : w.tag = u.tag
  · rw [moveToFront, moveToFront, put, if_pos ((tag_getD_find? u ws).trans h.symm), ← h,
      find?_put_self, filter_put_self]
    rfl
  · rw [moveToFront, moveToFront, put, if_neg (by rw [tag_getD_find?]; exact Ne.symm h),
      find?_put_of_ne h, filter_put_of_ne h]

/-- **A write replaces** what is in force where it stands, or comes last. -/
lemma inForce_append_write (past : List (Event ns)) (w : Write ns) :
    inForce (past ++ [.write w]) = put w (inForce past) := by
  induction past with
  | nil => simp [inForce, moveToFront, put]
  | cons e past ih =>
    cases e with
    | removal => exact ih
    | write u =>
      have hmem : Event.removal u.tag ∈ past ++ [.write w] ↔ Event.removal u.tag ∈ past := by simp
      rw [List.cons_append, inForce, inForce]
      simp only [hmem, ih]
      split_ifs
      · rfl
      · exact moveToFront_put u w _

/-- **A removal** takes away what is in force, and nothing else. -/
lemma inForce_append_removal (past : List (Event ns)) (tag : UInt32) :
    inForce (past ++ [.removal tag]) = (inForce past).filter (·.tag ≠ tag) := by
  induction past with
  | nil => rfl
  | cons e past ih =>
    cases e with
    | removal => exact ih
    | write u =>
      have hmem : Event.removal u.tag ∈ past ++ [.removal tag] ↔
          Event.removal u.tag ∈ past ∨ u.tag = tag := by simp
      rw [List.cons_append, inForce, inForce]
      simp only [hmem, ih]
      by_cases hpast : Event.removal u.tag ∈ past
      · rw [if_pos (Or.inl hpast), if_pos hpast]
      · rw [if_neg hpast]
        by_cases hu : u.tag = tag
        · rw [if_pos (Or.inr hu), ← hu, filter_moveToFront_self]
        · rw [if_neg (by tauto), filter_moveToFront_of_ne hu]

/-! ### What the log says -/

lemma Write.isLast_cons {e : Event ns} :
    w.IsLast (e :: past) ↔ w.IsLast past ∨ e = .write w ∧ ∀ e' ∈ past, e'.tag ≠ w.tag := by
  constructor
  · rintro ⟨before, after, heq, hafter⟩
    cases before with
    | nil =>
      obtain ⟨rfl, rfl⟩ := List.cons.inj heq
      exact Or.inr ⟨rfl, hafter⟩
    | cons e' before =>
      obtain ⟨-, rfl⟩ := List.cons.inj heq
      exact Or.inl ⟨before, after, rfl, hafter⟩
  · rintro (⟨before, after, rfl, hafter⟩ | ⟨rfl, hafter⟩)
    · exact ⟨e :: before, after, rfl, hafter⟩
    · exact ⟨[], past, rfl, hafter⟩

lemma Write.IsLast.mem (h : w.IsLast past) : .write w ∈ past := by
  obtain ⟨before, after, rfl, -⟩ := h
  simp

lemma exists_isLast (hremoved : .removal tag ∉ past) {e : Event ns} (he : e ∈ past)
    (htag : e.tag = tag) : ∃ w : Write ns, w.IsLast past ∧ w.tag = tag := by
  induction past generalizing e with
  | nil => simp at he
  | cons e' past ih =>
    rw [List.mem_cons, not_or] at hremoved
    by_cases hlater : ∃ e'' ∈ past, e''.tag = tag
    · obtain ⟨e'', he'', htag'⟩ := hlater
      obtain ⟨w, hw, hwtag⟩ := ih hremoved.2 he'' htag'
      exact ⟨w, Write.isLast_cons.mpr (Or.inl hw), hwtag⟩
    · simp only [not_exists, not_and] at hlater
      obtain rfl : e = e' := (List.mem_cons.mp he).resolve_right fun hmem => hlater e hmem htag
      cases e with
      | removal => exact absurd (congrArg Event.removal htag.symm) hremoved.1
      | write w =>
        obtain rfl : w.tag = tag := htag
        exact ⟨w, Write.isLast_cons.mpr (Or.inr ⟨rfl, hlater⟩), rfl⟩

lemma mem_moveToFront (hd : (ws.map Write.tag).Nodup) :
    w ∈ moveToFront u ws ↔ w ∈ ws ∨ u = w ∧ ∀ v ∈ ws, v.tag ≠ u.tag := by
  rw [moveToFront, List.mem_cons, List.mem_filter, decide_eq_true_eq]
  cases hfind : ws.find? (·.tag = u.tag) with
  | none =>
    have hall : ∀ v ∈ ws, v.tag ≠ u.tag := by simpa using hfind
    rw [Option.getD_none]
    constructor
    · rintro (rfl | ⟨hw, -⟩)
      · exact Or.inr ⟨rfl, hall⟩
      · exact Or.inl hw
    · rintro (hw | ⟨rfl, -⟩)
      · exact Or.inr ⟨hw, hall w hw⟩
      · exact Or.inl rfl
  | some v =>
    have hv : v ∈ ws := List.mem_of_find?_eq_some hfind
    have htag : v.tag = u.tag := by simpa using List.find?_some hfind
    rw [Option.getD_some]
    constructor
    · rintro (rfl | ⟨hw, -⟩)
      · exact Or.inl hv
      · exact Or.inl hw
    · rintro (hw | ⟨-, hall⟩)
      · by_cases hwtag : w.tag = u.tag
        · exact Or.inl (List.inj_on_of_nodup_map hd hw hv (hwtag.trans htag.symm))
        · exact Or.inr ⟨hw, hwtag⟩
      · exact absurd htag (hall v hv)

/-- **In force is what nothing followed**: the last writes of the tags that are not removed by then. -/
lemma mem_inForce : w ∈ inForce past ↔ w.IsLast past := by
  induction past generalizing w with
  | nil => simp [inForce, Write.IsLast]
  | cons e past ih =>
    rw [Write.isLast_cons]
    cases e with
    | removal => simpa [inForce] using ih
    | write u =>
      rw [inForce]
      split_ifs with hremoved
      · rw [ih, or_iff_left]
        rintro ⟨heq, hnone⟩
        obtain rfl := Event.write.inj heq
        exact hnone _ hremoved rfl
      · -- a tag that is not removed has something in force as soon as anything happened to it
        have hnone : (∀ v ∈ inForce past, v.tag ≠ u.tag) ↔ ∀ e ∈ past, e.tag ≠ u.tag := by
          constructor
          · intro hall e he htag
            obtain ⟨v, hv, hvtag⟩ := exists_isLast hremoved he htag
            exact hall v (ih.mpr hv) hvtag
          · exact fun hall v hv => hall (.write v) (ih.mp hv).mem
        rw [mem_moveToFront (nodup_inForce past), ih, hnone, Event.write.injEq]
        refine or_congr_right (and_congr_right ?_)
        rintro rfl
        rfl

lemma placeOf_cons_of_not {e : Event ns} (h : ¬(e.tag = tag ∧ .removal tag ∉ e :: past)) :
    placeOf tag (e :: past) = (placeOf tag past).map (· + 1) := if_neg h

lemma exists_placeOf (h : w.IsLast past) : ∃ n, placeOf w.tag past = some n := by
  induction past with
  | nil => simp [Write.IsLast] at h
  | cons e past ih =>
    rcases Write.isLast_cons.mp h with h | ⟨rfl, hafter⟩
    · obtain ⟨n, hn⟩ := ih h
      rw [placeOf, hn]
      split_ifs
      · exact ⟨0, rfl⟩
      · exact ⟨n + 1, rfl⟩
    · refine ⟨0, if_pos ⟨rfl, ?_⟩⟩
      rw [List.mem_cons, not_or]
      exact ⟨by simp, fun hmem => hafter _ hmem rfl⟩

lemma ComesBefore.cons {e : Event ns} {tag' : UInt32} (h : ComesBefore past tag tag')
    (hne : ¬(e.tag = tag ∧ .removal tag ∉ e :: past))
    (hne' : ¬(e.tag = tag' ∧ .removal tag' ∉ e :: past)) : ComesBefore (e :: past) tag tag' := by
  obtain ⟨m, n, hm, hn, hlt⟩ := h
  refine ⟨m + 1, n + 1, ?_, ?_, Nat.succ_lt_succ hlt⟩
  · rw [placeOf_cons_of_not hne, hm]
    rfl
  · rw [placeOf_cons_of_not hne', hn]
    rfl

lemma ComesBefore.cons_of_removed {e : Event ns} {tag' : UInt32} (h : ComesBefore past tag tag')
    (hremoved : .removal e.tag ∈ e :: past) : ComesBefore (e :: past) tag tag' := by
  have hnot : ∀ t, ¬(e.tag = t ∧ .removal t ∉ e :: past) := by
    rintro t ⟨rfl, hkept⟩
    exact hkept hremoved
  exact h.cons (hnot tag) (hnot tag')

/-- **What is in force comes in order** of the first writes. -/
lemma pairwise_inForce (past : List (Event ns)) :
    (inForce past).Pairwise fun w w' => ComesBefore past w.tag w'.tag := by
  induction past with
  | nil => exact List.Pairwise.nil
  | cons e past ih =>
    cases e with
    | removal => exact ih.imp fun h => h.cons_of_removed List.mem_cons_self
    | write u =>
      rw [inForce]
      split_ifs with hremoved
      · exact ih.imp fun h => h.cons_of_removed (List.mem_cons_of_mem _ hremoved)
      · have hshift : ∀ v ∈ (inForce past).filter (·.tag ≠ u.tag), ¬((Event.write u).tag = v.tag ∧
            .removal v.tag ∉ Event.write u :: past) := by
          rintro v hv ⟨htag, -⟩
          exact of_decide_eq_true (List.mem_filter.mp hv).2 htag.symm
        rw [moveToFront, List.pairwise_cons, tag_getD_find?]
        refine ⟨fun v hv => ?_, (ih.filter _).imp_of_mem fun hv hv' h =>
          h.cons (hshift _ hv) (hshift _ hv')⟩
        obtain ⟨n, hn⟩ := exists_placeOf (mem_inForce.mp (List.mem_filter.mp hv).1)
        refine ⟨0, n + 1, if_pos ⟨rfl, by simpa using hremoved⟩, ?_, Nat.succ_pos n⟩
        rw [placeOf_cons_of_not (hshift v hv), hn]
        rfl

/-! ### Steps and runs -/

lemma without_eq_filter {entries : List Entry} (hd : (entries.map Entry.tag).Nodup)
    (tag : UInt32) : without tag entries = entries.filter (·.tag ≠ tag) := by
  induction entries with
  | nil => rfl
  | cons e entries ih =>
    rw [List.map_cons, List.nodup_cons] at hd
    rw [without]
    split_ifs with he
    · have hall : ∀ e' ∈ entries, e'.tag ≠ tag := fun e' he' htag =>
        hd.1 (he.trans htag.symm ▸ List.mem_map_of_mem he')
      rw [List.filter_cons_of_neg (by simpa using he), List.filter_eq_self.mpr (by simpa using hall)]
    · rw [List.filter_cons_of_pos (by simpa using he), ih hd.2]

lemma map_tag_map_entry (ws : List (Write ns)) :
    (ws.map Write.entry).map Entry.tag = ws.map Write.tag := by
  rw [List.map_map]
  rfl

variable {headers : Nat → Header ns} {logs : Nat → List (Event ns)} {h : Header ns}
  {edits : List (Edit ns)}

lemma entries_setRaw (hh : h.entries = (inForce past).map Write.entry) (w : Write ns) :
    (h.setRaw w.tag w.value).entries = (inForce (past ++ [.write w])).map Write.entry := by
  rw [inForce_append_write, map_entry_put, ← hh]
  rfl

lemma entries_erase (hh : h.entries = (inForce past).map Write.entry) (tag : Tag ns) :
    (h.erase tag).entries = (inForce (past ++ [.removal tag.id])).map Write.entry := by
  have hd : (((inForce past).map Write.entry).map Entry.tag).Nodup := by
    rw [map_tag_map_entry]
    exact nodup_inForce past
  rw [inForce_append_removal, erase, hh, without_eq_filter hd, List.filter_map]
  rfl

lemma entries_extend {other : Header ns} (hh : h.entries = (inForce past).map Write.entry)
    (hother : other.entries = ws.map Write.entry) :
    (h.extend other).entries = (inForce (past ++ ws.map .write)).map Write.entry := by
  rw [extend, hother]
  clear hother
  induction ws generalizing h past with
  | nil => simpa using hh
  | cons w ws ih =>
    rw [List.map_cons, List.map_cons, List.foldl_cons, List.append_cons]
    exact ih (entries_setRaw hh w)

/-- **One operation** does to the entries what its events do to what is in force. -/
lemma entries_apply (hall : ∀ i, (headers i).entries = (inForce (logs i)).map Write.entry)
    (hh : h.entries = (inForce past).map Write.entry) (op : Operation ns) :
    (op.apply headers h).entries = (inForce (past ++ op.events logs)).map Write.entry := by
  cases op with
  | set tag value =>
    rw [Operation.apply, Operation.events]
    split_ifs with htype
    · rw [set_eq_ok_iff.mpr ⟨htype, rfl⟩]
      exact entries_setRaw hh ⟨tag.id, value, some tag⟩
    · rw [set, if_neg htype, List.append_nil]
      exact hh
  | setRaw tag value => exact entries_setRaw hh ⟨tag, value, none⟩
  | erase tag => exact entries_erase hh tag
  | extend other => exact entries_extend hh (hall other)

lemma run_append_singleton (edits : List (Edit ns)) (e : Edit ns) :
    run (edits ++ [e]) =
      Function.update (run edits) e.1 (e.2.apply (run edits) (run edits e.1)) := by
  rw [run, List.foldl_append]
  rfl

lemma log_append_singleton (edits : List (Edit ns)) (e : Edit ns) :
    log (edits ++ [e]) = Function.update (log edits) e.1 (log edits e.1 ++ e.2.events (log edits)) := by
  rw [log, List.foldl_append]
  rfl

/-- **The entries** of a header are the writes that are in force. -/
lemma entries_run (edits : List (Edit ns)) (i : Nat) :
    (run edits i).entries = (inForce (log edits i)).map Write.entry := by
  induction edits using List.reverseRecOn generalizing i with
  | nil => rfl
  | append_singleton edits e ih =>
    rw [run_append_singleton, log_append_singleton]
    by_cases hi : i = e.1
    · rw [hi, Function.update_self, Function.update_self]
      exact entries_apply ih (ih e.1) e.2
    · rw [Function.update_of_ne hi, Function.update_of_ne hi]
      exact ih i

lemma distinct_run (edits : List (Edit ns)) (i : Nat) : (run edits i).Distinct := by
  rw [Distinct, entries_run, map_tag_map_entry]
  exact nodup_inForce _

lemma Write.CameFrom.append (hw : w.CameFrom edits) (e : Edit ns) : w.CameFrom (edits ++ [e]) := by
  unfold Write.CameFrom at hw ⊢
  split at hw
  · obtain ⟨htag, htype, i, hi⟩ := hw
    exact ⟨htag, htype, i, List.mem_append_left _ hi⟩
  · obtain ⟨i, hi⟩ := hw
    exact ⟨i, List.mem_append_left _ hi⟩

/-- What an operation writes comes from it, or from where the header that it takes from has it. -/
lemma cameFrom_of_mem_events (hall : ∀ i (w : Write ns), .write w ∈ log edits i → w.CameFrom edits)
    (e : Edit ns) (hw : .write w ∈ e.2.events (log edits)) : w.CameFrom (edits ++ [e]) := by
  obtain ⟨i, op⟩ := e
  cases op with
  | set tag value =>
    rw [Operation.events] at hw
    split_ifs at hw with htype
    · obtain rfl := Event.write.inj (List.mem_singleton.mp hw)
      exact ⟨rfl, htype, i, by simp⟩
    · simp at hw
  | setRaw tag value =>
    obtain rfl := Event.write.inj (List.mem_singleton.mp hw)
    exact ⟨i, by simp⟩
  | erase tag => simp [Operation.events] at hw
  | extend other =>
    obtain ⟨v, hv, heq⟩ := List.mem_map.mp hw
    obtain rfl := Event.write.inj heq
    exact (hall other v (mem_inForce.mp hv).mem).append _

/-- **Every write** of a log comes from one of the edits. -/
lemma cameFrom_of_mem_log (i : Nat) (w : Write ns) (hw : .write w ∈ log edits i) :
    w.CameFrom edits := by
  induction edits using List.reverseRecOn generalizing i w with
  | nil => simp [log] at hw
  | append_singleton edits e ih =>
    rw [log_append_singleton] at hw
    by_cases hi : i = e.1
    · rw [hi, Function.update_self] at hw
      rcases List.mem_append.mp hw with hw | hw
      · exact (ih e.1 w hw).append e
      · exact cameFrom_of_mem_events ih e hw
    · rw [Function.update_of_ne hi] at hw
      exact (ih i w hw).append e

lemma follows_run_log (edits : List (Edit ns)) (i : Nat) : (run edits i).Follows (log edits i) where
  distinct := distinct_run edits i
  entries := entries_run edits i
  getRaw tag value := by
    rw [getRaw_eq_some_iff (distinct_run edits i), entries_run, List.mem_map]
    constructor
    · rintro ⟨w, hw, heq⟩
      obtain ⟨htag, hvalue⟩ := Entry.mk.inj heq
      exact ⟨w, mem_inForce.mp hw, htag, hvalue⟩
    · rintro ⟨w, hw, rfl, rfl⟩
      exact ⟨w, mem_inForce.mpr hw, rfl⟩
  ordered := by
    rw [entries_run, map_tag_map_entry, List.pairwise_map]
    exact pairwise_inForce _

lemma append_refused {i : Nat} {tag : Tag ns} {value : Value} {e : Error}
    (hrefused : (run edits i).set tag value = .error e) :
    value.type? ≠ some tag.type ∧ run (edits ++ [(i, .set tag value)]) = run edits ∧
      log (edits ++ [(i, .set tag value)]) = log edits := by
  have htype : value.type? ≠ some tag.type := by
    intro htype
    rw [set_eq_ok_iff.mpr ⟨htype, rfl⟩] at hrefused
    contradiction
  refine ⟨htype, ?_, ?_⟩
  · rw [run_append_singleton, Operation.apply, hrefused, Function.update_eq_self]
  · rw [log_append_singleton, Operation.events, if_neg htype, List.append_nil,
      Function.update_eq_self]

/-- A header that edits made of empty ones. -/
abbrev Edited (ns : Namespace) := { h : Header ns // ∃ edits i, run edits i = h }

lemma Edited.distinct (a : Edited ns) : a.1.Distinct := by
  obtain ⟨h, edits, i, rfl⟩ := a
  exact distinct_run edits i

/-- **Headers are maps in order of insertion**, whatever is done to them. A tag has the value that was
written last unless it was removed since, and comes where it was first written since it was last
removed; a value that was set has the type of its tag, and a refused one changes nothing. Comparing
two of them tells whether they are the same map. -/
theorem follows_of_run (edits : List (Edit ns)) :
    (∀ i, (run edits i).Follows (log edits i)) ∧
      (∀ i w, .write w ∈ log edits i → w.CameFrom edits) ∧
      (∀ i tag value e, (run edits i).set tag value = .error e →
        value.type? ≠ some tag.type ∧ run (edits ++ [(i, .set tag value)]) = run edits ∧
          log (edits ++ [(i, .set tag value)]) = log edits) ∧
      (∀ a b : Edited ns, a.1.same b.1 = true ↔ ∀ tag, a.1.getRaw tag = b.1.getRaw tag) ∧
      Equivalence fun a b : Edited ns => a.1.same b.1 = true := by
  have hsame : ∀ a b : Edited ns, a.1.same b.1 = true ↔ ∀ tag, a.1.getRaw tag = b.1.getRaw tag :=
    fun a b => same_iff_getRaw a.distinct b.distinct
  refine ⟨follows_run_log edits, cameFrom_of_mem_log, fun i tag value e => append_refused,
    hsame, fun a => a.distinct.same_self, fun {a b} hab => ?_, fun {a b c} hab hbc => ?_⟩
  · rwa [b.distinct.same_comm a.distinct]
  · rw [hsame] at hab hbc ⊢
    exact fun tag => (hab tag).trans (hbc tag)

/-- A header that is edited and extended, the one it is extended by, and one that gets the same values
in another order. -/
def intertwined : List (Edit .metadata) := [
  (0, .set MetadataTag.name "a"), (0, .set MetadataTag.version "1"), (1, .setRaw 5000 .null),
  (0, .set MetadataTag.name "b"), (1, .set MetadataTag.version "2"), (0, .extend 1),
  (0, .erase MetadataTag.name), (0, .set MetadataTag.name "c"), (2, .set MetadataTag.name "c"),
  (2, .extend 1)]

theorem follows_of_run_intertwined :
    (run intertwined 0).entries = [⟨1001, "2"⟩, ⟨5000, .null⟩, ⟨1000, "c"⟩] ∧
      run (intertwined ++ [(0, .set MetadataTag.name (7 : UInt32))]) = run intertwined ∧
      ∀ tag, (run intertwined 0).getRaw tag = (run intertwined 2).getRaw tag := by
  obtain ⟨hfollows, -, hrefused, hsame, -⟩ := follows_of_run intertwined
  have hentries : (run intertwined 0).entries = [⟨1001, "2"⟩, ⟨5000, .null⟩, ⟨1000, "c"⟩] :=
    (hfollows 0).entries.trans (by decide +kernel)
  have herror : (run intertwined 0).set MetadataTag.name (7 : UInt32) =
      .error (.tagTypeMismatch 1000 .string (some .int32)) := rfl
  refine ⟨hentries, (hrefused 0 _ _ _ herror).2.1, ?_⟩
  exact (hsame ⟨_, _, 0, rfl⟩ ⟨_, _, 2, rfl⟩).mp (by decide +kernel)

end Rpm.Header
