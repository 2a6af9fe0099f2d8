/-
  LivediskForensic.Lib.Ansi
  ──────────────────────────
  WHAT A TERMINAL SHOWS: a text with `ESC [ … m` sequences, read as the list of
  its visible characters, each with the graphic rendition in force.

      scan_append_run — characters without an escape are shown as they stand
      scan_sgr        — a sequence shows nothing and sets the rendition
-/
import Mathlib.Data.List.Basic

namespace LivediskForensic.Lib.Ansi

/-- The escape character. -/
def ESC : Char := Char.ofNat 0x1B

/-- The parameters of the sequence last seen; the default rendition is `0`. -/
abbrev Rendition := List Char

/-- Where in a sequence the terminal stands. -/
inductive Mode where
  | text
  /-- After the escape character. -/
  | escape
  /-- Inside the brackets, with the parameters so far, last first. -/
  | parameters (seen : List Char)

/-- The visible characters with their rendition. -/
def scan : Mode → Rendition → List Char → List (Rendition × Char)
  | _, _, [] => []
  | .text, style, c :: cs =>
      if c = ESC then scan .escape style cs else (style, c) :: scan .text style cs
  | .escape, style, c :: cs =>
      if c = '[' then scan (.parameters []) style cs else scan .text style cs
  | .parameters seen, style, c :: cs =>
      if c = 'm' then scan .text seen.reverse cs else scan (.parameters (c :: seen)) style cs

/-- A sequence that sets the rendition. -/
def sgr (params : Rendition) : List Char := ESC :: '[' :: (params ++ ['m'])

/-- What is shown from the default rendition on. -/
def shown (text : List Char) : List (Rendition × Char) := scan .text ['0'] text

/-- Plain characters are shown as they stand. -/
theorem scan_append_run (style : Rendition) (rest : List Char) :
    ∀ run : List Char, ESC ∉ run →
      scan .text style (run ++ rest) = run.map (fun c => (style, c)) ++ scan .text style rest
  | [], _ => rfl
  | c :: run, h => by
      have hc : c ≠ ESC := fun he => h (he ▸ List.mem_cons_self)
      have ih := scan_append_run style rest run (fun hr => h (List.mem_cons_of_mem _ hr))
      show (if c = ESC then scan .escape style (run ++ rest)
        else (style, c) :: scan .text style (run ++ rest)) = _
      rw [if_neg hc, ih]
      rfl

theorem scan_parameters (style : Rendition) (rest : List Char) :
    ∀ (params seen : List Char), 'm' ∉ params →
      scan (.parameters seen) style (params ++ 'm' :: rest)
        = scan .text (seen.reverse ++ params) rest
  | [], seen, _ => by
      show (if 'm' = 'm' then scan .text seen.reverse rest else _) = _
      rw [if_pos rfl, List.append_nil]
  | c :: params, seen, h => by
      have hc : c ≠ 'm' := fun he => h (he ▸ List.mem_cons_self)
      have ih := scan_parameters style rest params (c :: seen)
        (fun hp => h (List.mem_cons_of_mem _ hp))
      show (if c = 'm' then _ else scan (.parameters (c :: seen)) style (params ++ 'm' :: rest)) = _
      rw [if_neg hc, ih, List.reverse_cons, List.append_assoc, List.singleton_append]

/-- **A sequence shows nothing and sets the rendition.** -/
theorem scan_sgr {params : Rendition} (h : 'm' ∉ params) (style : Rendition) (rest : List Char) :
    scan .text style (sgr params ++ rest) = scan .text params rest := by
  have hparams := scan_parameters style rest params [] h
  rw [List.reverse_nil, List.nil_append] at hparams
  rw [← hparams]
  show (if ESC = ESC then scan .escape style ('[' :: ((params ++ ['m']) ++ rest)) else _) = _
  rw [if_pos rfl, List.append_assoc]
  rfl

end LivediskForensic.Lib.Ansi
