import HassOS.Framework.Xargs

/-!
# Kernel command lines (`cmdline.sh`)

The two functions of `/usr/lib/rauc/cmdline.sh`, for command lines of one line.
-/

namespace HassOS.Tryboot

open Framework

/-- The regular expression `$key=`. -/
def keyPat (key : Line) : Pat := Pat.ofRegex (key ++ ['='])

/-- `cut -d= -f2-` of a line with a `=`. -/
def cutFields (w : Line) : Line := (w.dropWhile (· ≠ '=')).drop 1

/-- `get_value`: one line for each word that starts with `$key=`. -/
def getValue (key cmdlineString : Line) : Text :=
  ((xargsWords cmdlineString).filter fun w => ((keyPat key).rest w).isSome).map cutFields

/-- `set_value`, for a value without `/`, `&` and backslashes. A newline would
end the command of `sed` before its last `/`: `sed` fails and prints nothing. -/
def setValue (key newValue cmdlineString : Line) : Line :=
  if (keyPat key).Clean cmdlineString then
    cmdlineString ++ ' ' :: (key ++ '=' :: newValue)
  else if '\n' ∈ newValue then
    []
  else
    sedToken (keyPat key) (key ++ '=' :: newValue) cmdlineString

/-- What `$(...)` expands to: the output without its trailing newlines. -/
def capture (out : Text) : Line := (List.intercalate ['\n'] out).rdropWhile (· = '\n')

theorem setValue_eq {newValue : Line} (h : '\n' ∉ newValue) (key l : Line) :
    setValue key newValue l = if (keyPat key).Clean l then l ++ ' ' :: (key ++ '=' :: newValue)
      else sedToken (keyPat key) (key ++ '=' :: newValue) l := by
  rw [setValue, if_neg h]

theorem getValue_append {a : Line} (ha : EndsBlank a) (key b : Line) :
    getValue key (a ++ b) = getValue key a ++ getValue key b := by
  rw [getValue, getValue, getValue, xargsWords_append ha, List.filter_append, List.map_append]

theorem getValue_append_space (key a b : Line) {c : Char} (hc : isSpace c = true) :
    getValue key (a ++ c :: b) = getValue key a ++ getValue key b := by
  rw [getValue, getValue, getValue, xargsWords_append_space a b hc, List.filter_append,
    List.map_append]

/-- The deletion of a word that is not a setting of `key`. -/
theorem getValue_sedDelete {key w l : Line} (hdot : '.' ∉ w ++ [' ']) (hw : getValue key w = [])
    (h : (Pat.ofRegex (w ++ [' '])).StartsWords l) :
    getValue key (sedDelete (Pat.ofRegex (w ++ [' '])) l) = getValue key l := by
  rcases sedDelete_word hdot h with hl | ⟨a, b, ha, hl, hd⟩
  · rw [hl]
  · rw [hd, getValue_append ha]
    rw [hl, getValue_append ha, getValue_append_space key w b rfl, hw, List.nil_append]

example : getValue "rauc.slot".toList (setValue "rauc.slot".toList "B".toList
    "ro rauc.slot=A quiet".toList) = ["B".toList] := by decide

end HassOS.Tryboot
