import Mathlib.Data.List.Induction
import Mathlib.Tactic.Common

/-!
# Packets in a stream of flagged words

On many buses a word comes with a flag that says whether its packet goes on.  `packets`
cuts a list of such words into its packets and `openPacket` is what follows the last
complete one; `flagged` is the way back.  A word received at the end of the stream changes
the packet under way if it goes on (`packets_more`, `openPacket_more`), and completes it if not
(`packets_last`, `openPacket_last`).
-/

namespace Clocked

variable {α : Type*} {β : Type*}

/-- One more word: the complete packets, and the words of the packet under way. -/
def frameStep (acc : List (List α) × List α) (word : Bool × α) : List (List α) × List α :=
  if word.1 then (acc.1, acc.2 ++ [word.2]) else (acc.1 ++ [acc.2 ++ [word.2]], [])

/-- The packets complete in a list of words, each flagged with whether its packet goes on. -/
def packets (words : List (Bool × α)) : List (List α) := (words.foldl frameStep ([], [])).1

/-- The words after the last complete packet. -/
def openPacket (words : List (Bool × α)) : List α := (words.foldl frameStep ([], [])).2

/-- The words of a packet under their flags: all but the last go on. -/
def flagged : List α → List (Bool × α)
  | [] => []
  | [w] => [(false, w)]
  | w :: w' :: ws => (true, w) :: flagged (w' :: ws)

@[simp] theorem packets_nil : packets ([] : List (Bool × α)) = [] := rfl

@[simp] theorem openPacket_nil : openPacket ([] : List (Bool × α)) = [] := rfl

@[simp] theorem packets_more (words : List (Bool × α)) (w : α) :
    packets (words ++ [(true, w)]) = packets words := by
  simp [packets, List.foldl_append, frameStep]

@[simp] theorem openPacket_more (words : List (Bool × α)) (w : α) :
    openPacket (words ++ [(true, w)]) = openPacket words ++ [w] := by
  simp [openPacket, List.foldl_append, frameStep]

@[simp] theorem packets_last (words : List (Bool × α)) (w : α) :
    packets (words ++ [(false, w)]) = packets words ++ [openPacket words ++ [w]] := by
  simp [packets, openPacket, List.foldl_append, frameStep]

@[simp] theorem openPacket_last (words : List (Bool × α)) (w : α) :
    openPacket (words ++ [(false, w)]) = [] := by
  simp [openPacket, List.foldl_append, frameStep]

/-- More words: the packet under way goes on with them. -/
theorem foldl_frameStep (acc : List (List α) × List α) (words : List (Bool × α)) :
    words.foldl frameStep acc =
      (acc.1 ++ (words.foldl frameStep ([], acc.2)).1, (words.foldl frameStep ([], acc.2)).2) := by
  induction words using List.reverseRecOn with
  | nil => simp
  | append_singleton words word ih =>
      rw [List.foldl_append, List.foldl_append, ih]
      cases hmore : word.1 <;> simp [frameStep, hmore]

theorem packets_append (words words' : List (Bool × α)) :
    packets (words ++ words') =
      packets words ++ (words'.foldl frameStep ([], openPacket words)).1 := by
  rw [packets, List.foldl_append, foldl_frameStep]
  rfl

theorem openPacket_append (words words' : List (Bool × α)) :
    openPacket (words ++ words') = (words'.foldl frameStep ([], openPacket words)).2 := by
  rw [openPacket, List.foldl_append, foldl_frameStep]
  rfl

theorem flagged_concat (ws : List α) (w : α) :
    flagged (ws ++ [w]) = ws.map (fun v => (true, v)) ++ [(false, w)] := by
  induction ws with
  | nil => rfl
  | cons v ws ih =>
      cases ws with
      | nil => rfl
      | cons v' ws =>
          simp only [List.cons_append, flagged, List.map_cons] at ih ⊢
          rw [ih]

/-- Cutting a stream into packets loses no word. -/
theorem flagged_packets (words : List (Bool × α)) :
    (packets words).flatMap flagged ++ (openPacket words).map (fun w => (true, w)) = words := by
  induction words using List.reverseRecOn with
  | nil => rfl
  | append_singleton words word ih =>
      obtain ⟨more, w⟩ := word
      cases more with
      | true =>
          rw [packets_more, openPacket_more, List.map_append, ← List.append_assoc, ih]
          rfl
      | false =>
          rw [packets_last, openPacket_last, List.flatMap_append, List.flatMap_singleton,
            flagged_concat, ← List.append_assoc, ih]
          simp

end Clocked
