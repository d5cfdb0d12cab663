namespace StaleStore

-- Compared by code points, which is also the order of the bytes in UTF-8.
abbrev Text := List Char

namespace Text

def hasInfix (sub : Text) : Text → Bool
  | [] => sub.isEmpty
  | c :: rest => sub.isPrefixOf (c :: rest) || hasInfix sub rest

def throughFirst? (mark : Text) : Text → Option Text
  | [] => if mark.isEmpty then some [] else none
  | c :: rest =>
    if mark.isPrefixOf (c :: rest) then some mark else (throughFirst? mark rest).map (c :: ·)

def trimRight (c : Char) (t : Text) : Text := (t.reverse.dropWhile (· = c)).reverse

def before (a b : Text) : Bool := compare a b == .lt

def padded (places : Nat) (n : Nat) : Text :=
  let digits := Nat.toDigits 10 n
  List.replicate (places - digits.length) '0' ++ digits

def decimal (n : Nat) : Text := Nat.toDigits 10 n

def hex (n : Nat) : Text := Nat.toDigits 16 n

def paddedHex (places : Nat) (n : Nat) : Text :=
  let digits := Nat.toDigits 16 n
  List.replicate (places - digits.length) '0' ++ digits

def joined (separator : Text) : List Text → Text
  | [] => []
  | [t] => t
  | t :: rest => t ++ separator ++ joined separator rest

end Text
end StaleStore
