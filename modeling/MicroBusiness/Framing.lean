import Mathlib.Data.List.Infix
import Mathlib.Tactic.Cases

/-!
# Frames in a stream

A reader takes the first frame off a text, once it is there as a whole. What it
has taken stays the same when more arrives behind it, so it does not matter in
what pieces a stream arrives: reading after each piece, and keeping what is left
of it, is reading the whole at once (`Reader.receive_eq`).

A stream of frames written out one after the other is read back frame by frame
(`Reader.readAll_flatMap`), and at every moment exactly as many frames have been
read as have arrived as a whole (`Reader.follows_of_written`).
-/

namespace Framing

variable {α β γ : Type*}

/-- **A reader of frames**: it takes the first frame off a text. A frame is not
empty, and does not change when there is more behind it. -/
structure Reader (α β : Type*) where
  read : List α → Option (β × List α)
  shorter : ∀ {text frame rest}, read text = some (frame, rest) → rest.length < text.length
  extend : ∀ {text frame rest}, read text = some (frame, rest) → ∀ more,
    read (text ++ more) = some (frame, rest ++ more)

namespace Reader

variable (R : Reader α β)

/-- The frames of a text, and what is left behind them. -/
def readAll (text : List α) : List β × List α :=
  match _h : R.read text with
  | none => ([], text)
  | some (frame, rest) => (frame :: (readAll rest).1, (readAll rest).2)
termination_by text.length
decreasing_by all_goals exact R.shorter _h

/-- The frames that are read while the pieces of a stream arrive behind what is
left, and what is left in the end. -/
def receive : List α → List (List α) → List β × List α
  | left, [] => ([], left)
  | left, piece :: pieces =>
    ((R.readAll (left ++ piece)).1 ++ (receive (R.readAll (left ++ piece)).2 pieces).1,
      (receive (R.readAll (left ++ piece)).2 pieces).2)

variable {R}

theorem readAll_of_none {text : List α} (h : R.read text = none) : R.readAll text = ([], text) := by
  rw [readAll]
  split
  · rfl
  · next h' =>
    rw [h] at h'
    cases h'

theorem readAll_of_some {text rest : List α} {frame : β} (h : R.read text = some (frame, rest)) :
    R.readAll text = (frame :: (R.readAll rest).1, (R.readAll rest).2) := by
  rw [readAll]
  split
  · next h' =>
    rw [h] at h'
    cases h'
  · next h' =>
    rw [h] at h'
    cases h'
    rfl

theorem read_nil : R.read [] = none := by
  cases h : R.read [] with
  | none => rfl
  | some x => exact absurd (R.shorter h) (Nat.not_lt_zero _)

theorem read_left (text : List α) : R.read (R.readAll text).2 = none := by
  induction text using readAll.induct R with
  | case1 text h =>
    rw [readAll_of_none h]
    exact h
  | case2 text frame rest h ih =>
    rw [readAll_of_some h]
    exact ih

/-- **Reading goes on where it has stopped.** -/
theorem readAll_append (text more : List α) :
    R.readAll (text ++ more)
      = ((R.readAll text).1 ++ (R.readAll ((R.readAll text).2 ++ more)).1,
          (R.readAll ((R.readAll text).2 ++ more)).2) := by
  induction text using readAll.induct R with
  | case1 text h =>
    rw [readAll_of_none h]
    rfl
  | case2 text frame rest h ih =>
    rw [readAll_of_some (R.extend h more), readAll_of_some h, ih]
    rfl

/-- **The pieces do not matter**: what is read from a stream is what is read
from the whole. -/
theorem receive_eq {left : List α} (hleft : R.read left = none) (pieces : List (List α)) :
    R.receive left pieces = R.readAll (left ++ pieces.flatten) := by
  induction pieces generalizing left with
  | nil =>
    rw [List.flatten_nil, List.append_nil, readAll_of_none hleft]
    rfl
  | cons piece pieces ih =>
    rw [List.flatten_cons, ← List.append_assoc, readAll_append, receive, ih (read_left _)]

/-! ## Frames written out -/

variable {write : γ → List α} {frame : γ → β} {items : List γ}

/-- **Frames that are written out are read back**, whatever comes behind them. -/
theorem readAll_flatMap
    (h : ∀ c ∈ items, ∀ more, R.read (write c ++ more) = some (frame c, more)) (more : List α) :
    R.readAll (items.flatMap write ++ more)
      = (items.map frame ++ (R.readAll more).1, (R.readAll more).2) := by
  induction items with
  | nil => rfl
  | cons c items ih =>
    rw [List.flatMap_cons, List.append_assoc, readAll_of_some (h c List.mem_cons_self _),
      ih fun c hc => h c (List.mem_cons_of_mem _ hc)]
    rfl

/-- **What has been read of a stream of frames while it arrives**: the frames
that have been read are the first of those written, all that have arrived as a
whole are among them, and nothing is left when everything has arrived. -/
structure Follows (R : Reader α β) (write : γ → List α) (frame : γ → β) (items : List γ)
    (pieces : List (List α)) : Prop where
  read : (R.receive [] pieces).1 <+: items.map frame
  whole : ∀ first, first <+: items → first.flatMap write <+: pieces.flatten →
    first.map frame <+: (R.receive [] pieces).1
  all : pieces.flatten = items.flatMap write → R.receive [] pieces = (items.map frame, [])

/-- **Frames are read as they were written**, in whatever pieces the stream
arrives, and as far as it has arrived. -/
theorem follows_of_written
    (h : ∀ c ∈ items, ∀ more, R.read (write c ++ more) = some (frame c, more))
    {pieces : List (List α)} (harrived : pieces.flatten <+: items.flatMap write) :
    R.Follows write frame items pieces := by
  have hall : R.readAll (items.flatMap write) = (items.map frame, []) := by
    have hread := readAll_flatMap h []
    rw [List.append_nil, readAll_of_none read_nil, List.append_nil] at hread
    exact hread
  have hreceive : R.receive [] pieces = R.readAll pieces.flatten := receive_eq read_nil pieces
  refine ⟨?_, fun first hfirst hwhole => ?_, fun heq => by rw [hreceive, heq, hall]⟩
  · obtain ⟨more, hmore⟩ := harrived
    rw [← hmore, readAll_append] at hall
    rw [hreceive]
    exact ⟨_, congrArg Prod.fst hall⟩
  · obtain ⟨more, hmore⟩ := hwhole
    rw [hreceive, ← hmore, readAll_flatMap fun c hc => h c (hfirst.subset hc)]
    exact List.prefix_append _ _

end Reader

end Framing
