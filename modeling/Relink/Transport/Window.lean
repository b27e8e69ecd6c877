import Relink.Transport.Dedup

/-! The duplicate window in both languages.

`is_recent_duplicate` keeps a circular array with validity bits per topic, the Python build a
bounded deque. Both are the same filter: a number is a duplicate if it is among the last eight
that were let through on its topic. -/
namespace Relink.Transport
open Wire Transition Recent
open Std (ExtTreeMap)

def kWindow : Nat := 8

namespace Py

/-- The part of the Python transport that the duplicate test touches. -/
structure UdpTransport where
  recentSeqs : ExtTreeMap UInt32 (List UInt16) := ∅

def UdpTransport.window (t : UdpTransport) (topic : UInt32) : List UInt16 :=
  t.recentSeqs.getD topic []

/-- `_is_recent_duplicate`. A window is stored before it is looked at. -/
def isRecentDuplicate (t : UdpTransport) (topicId : UInt32) (seq : UInt16) :
    Bool × UdpTransport :=
  let window := t.window topicId
  if seq ∈ window then (true, {t with recentSeqs := t.recentSeqs.insert topicId window})
  else (false, {t with recentSeqs := t.recentSeqs.insert topicId (append kWindow window seq)})

end Py

/-! ### Calls -/

section
variable {H : Type}

/-- A call as a step of a machine that answers. -/
def ask (t : UdpTransport H) (c : UInt32 × UInt16) : UdpTransport H × Bool :=
  (isRecentDuplicate t c.1 c.2).swap

def Py.ask (t : Py.UdpTransport) (c : UInt32 × UInt16) : Py.UdpTransport × Bool :=
  (Py.isRecentDuplicate t c.1 c.2).swap

/-- The state after a sequence of calls. -/
def asked (t : UdpTransport H) (calls : List (UInt32 × UInt16)) : UdpTransport H :=
  calls.foldl (fun t c => (ask t c).1) t

/-- A transport that was not asked yet. -/
def unasked (t : UdpTransport H) : UdpTransport H := {t with recentSeqs := ∅}

/-- The numbers of a topic on which the calls returned false, oldest first. -/
def acceptedSeqs (t : UdpTransport H) (topic : UInt32) (calls : List (UInt32 × UInt16)) :
    List UInt16 :=
  keptOf topic calls (outputs ask t calls)

theorem eight_neZero : NeZero 8 := inferInstance

/-- The circular arrays remember what was kept on their topics. -/
def Remembered (t : UdpTransport H) (kept : UInt32 → List UInt16) : Prop :=
  ∀ topic, @Remembers UInt16 8 eight_neZero (t.window topic).slot (t.window topic).next
    (kept topic)

/-- The deques hold the end of what was kept on their topics. -/
def Py.Remembered (t : Py.UdpTransport) (kept : UInt32 → List UInt16) : Prop :=
  ∀ topic, t.window topic = (kept topic).rtake kWindow

theorem remembered_unasked (t : UdpTransport H) : Remembered (unasked t) fun _ => [] := by
  intro topic
  have hwindow : (unasked t).window topic = {} := ExtTreeMap.getD_empty
  have hslot : SeqWindow.slot {} = fun _ => none := by
    funext i
    simp [SeqWindow.slot]
  rw [hwindow, hslot]
  exact remembers_nil

theorem Py.remembered_empty : Py.Remembered {} fun _ => [] := fun _ => ExtTreeMap.getD_empty

/-- One call of the C++ build. -/
theorem Remembered.ask {t : UdpTransport H} {kept : UInt32 → List UInt16} (h : Remembered t kept)
    (c : UInt32 × UInt16) :
    (ask t c).2 = (offer kWindow kept c).2 ∧ Remembered (ask t c).1 (offer kWindow kept c).1 := by
  obtain ⟨topic, seq⟩ := c
  have hholds : (t.window topic).holds seq = true ↔ seq ∈ (kept topic).rtake kWindow := by
    rw [SeqWindow.holds_iff]
    exact (h topic).mem_iff seq
  unfold Transport.ask isRecentDuplicate offer
  by_cases hdup : seq ∈ (kept topic).rtake kWindow
  · rw [if_pos (hholds.mpr hdup), if_pos hdup]
    refine ⟨rfl, fun k => ?_⟩
    rw [window_insert t _ rfl]
    split
    · next hk => exact hk ▸ h topic
    · exact h k
  · rw [if_neg fun hin => hdup (hholds.mp hin), if_neg hdup]
    refine ⟨rfl, fun k => ?_⟩
    rw [window_insert t _ rfl]
    show Remembers _ _ (Function.update kept topic (kept topic ++ [seq]) k)
    by_cases hk : topic = k
    · subst hk
      rw [if_pos rfl, Function.update_self]
      exact (h topic).push (SeqWindow.record_here _ seq) fun i hi => SeqWindow.record_else _ seq i hi
    · rw [if_neg hk, Function.update_of_ne (Ne.symm hk)]
      exact h k

theorem Py.window_insert (t : Py.UdpTransport) (topic : UInt32) (v : List UInt16) (k : UInt32) :
    Py.UdpTransport.window {t with recentSeqs := t.recentSeqs.insert topic v} k =
      if topic = k then v else t.window k := by
  rw [Py.UdpTransport.window, ExtTreeMap.getD_insert]
  exact if_congr Std.compare_eq_iff_eq rfl rfl

/-- One call of the Python build. -/
theorem Py.Remembered.ask {t : Py.UdpTransport} {kept : UInt32 → List UInt16}
    (h : Py.Remembered t kept) (c : UInt32 × UInt16) : (Py.ask t c).2 = (offer kWindow kept c).2 ∧
      Py.Remembered (Py.ask t c).1 (offer kWindow kept c).1 := by
  obtain ⟨topic, seq⟩ := c
  unfold Py.ask Py.isRecentDuplicate offer
  simp only [h topic]
  by_cases hdup : seq ∈ (kept topic).rtake kWindow
  · rw [if_pos hdup, if_pos hdup]
    refine ⟨rfl, fun k => ?_⟩
    refine (Py.window_insert t topic _ k).trans ?_
    split
    · next hk => rw [hk]
    · exact h k
  · rw [if_neg hdup, if_neg hdup]
    refine ⟨rfl, fun k => (Py.window_insert t topic _ k).trans ?_⟩
    show _ = (Function.update kept topic (kept topic ++ [seq]) k).rtake kWindow
    by_cases hk : topic = k
    · subst hk
      rw [if_pos rfl, Function.update_self, append_rtake]
    · rw [if_neg hk, Function.update_of_ne (Ne.symm hk)]
      exact h k

/-- The circular arrays after a sequence of calls. -/
theorem remembered_asked (t : UdpTransport H) (calls : List (UInt32 × UInt16)) :
    outputs ask (unasked t) calls = outputs (offer kWindow) (fun _ => []) calls ∧
      Remembered (asked (unasked t) calls) (offers kWindow (fun _ => []) calls) :=
  outputs_sim Remembered ask (offer kWindow) (fun _ _ c h => h.ask c) calls _ _ (remembered_unasked t)

/-- A call answers whether the number is among the last eight accepted on its topic. -/
theorem isRecentDuplicate_iff (t : UdpTransport H) (calls : List (UInt32 × UInt16))
    (topic : UInt32) (seq : UInt16) :
    (isRecentDuplicate (asked (unasked t) calls) topic seq).1 = true ↔
      seq ∈ (acceptedSeqs (unasked t) topic calls).rtake kWindow := by
  obtain ⟨houts, hkept⟩ := remembered_asked t calls
  have hhere := (hkept.ask (topic, seq)).1
  have hlast : offers kWindow (fun _ => []) calls topic = acceptedSeqs (unasked t) topic calls := by
    rw [offers_eq, acceptedSeqs, houts, List.nil_append]
  have hoffer := offer_iff kWindow (offers kWindow (fun _ => []) calls) (topic, seq)
  rw [← hhere, hlast] at hoffer
  exact hoffer

/-- What came on other topics makes no difference. -/
theorem isRecentDuplicate_alone (t : UdpTransport H) (calls : List (UInt32 × UInt16))
    (topic : UInt32) (seq : UInt16) :
    (isRecentDuplicate (asked (unasked t) calls) topic seq).1 =
      (isRecentDuplicate (asked (unasked t) (calls.filter fun c => c.1 = topic)) topic seq).1 := by
  have hanswer : ∀ calls, (isRecentDuplicate (asked (unasked t) calls) topic seq).1 = true ↔
      seq ∈ (offers kWindow (fun _ => []) calls topic).rtake kWindow := by
    intro calls
    rw [← offer_iff kWindow _ (topic, seq), ← ((remembered_asked t calls).2.ask (topic, seq)).1]
    exact Iff.rfl
  rw [Bool.eq_iff_iff, hanswer, hanswer, offers_filter kWindow rfl calls]

/-- The answers of the Python build are those of the filter too. -/
theorem outputs_python (t : UdpTransport H) (calls : List (UInt32 × UInt16)) :
    outputs Py.ask {} calls = outputs ask (unasked t) calls := by
  have hpy := outputs_sim Py.Remembered Py.ask (offer kWindow) (fun _ _ c h => h.ask c) calls _ _
    Py.remembered_empty
  rw [hpy.1, (remembered_asked t calls).1]

/-- A call returns true exactly if the number is among the last eight (or fewer, early on) that
were accepted on the topic, whatever came on other topics, and in both languages. -/
theorem duplicate_window (t : UdpTransport H) (calls : List (UInt32 × UInt16)) (topic : UInt32)
    (seq : UInt16) :
    ((isRecentDuplicate (asked (unasked t) calls) topic seq).1 = true ↔
      seq ∈ (acceptedSeqs (unasked t) topic calls).rtake
        (min 8 (acceptedSeqs (unasked t) topic calls).length)) ∧
    (isRecentDuplicate (asked (unasked t) calls) topic seq).1 =
      (isRecentDuplicate (asked (unasked t) (calls.filter fun c => c.1 = topic)) topic seq).1 ∧
    outputs Py.ask {} calls = outputs ask (unasked t) calls := by
  refine ⟨?_, isRecentDuplicate_alone t calls topic seq, outputs_python t calls⟩
  have hmin : (acceptedSeqs (unasked t) topic calls).rtake
      (min 8 (acceptedSeqs (unasked t) topic calls).length) =
        (acceptedSeqs (unasked t) topic calls).rtake kWindow := by
    rw [List.rtake, List.rtake, kWindow]
    congr 1
    omega
  rw [hmin, isRecentDuplicate_iff]

/-- The slots start with number 0, which is no duplicate before it was accepted; it is one until
eight others were. -/
example : outputs (ask : UdpTransport Unit → _) {}
    [(7, 0), (7, 0), (7, 1), (7, 2), (7, 3), (7, 4), (7, 5), (7, 6), (7, 7), (7, 0), (7, 8), (7, 0)] =
    [false, true, false, false, false, false, false, false, false, true, false, false] := by
  decide +kernel

end

end Relink.Transport
