import StaleStore.Text
import StaleStore.Text.Shown

namespace StaleStore
namespace Text

def quotedChar (c : Char) : Text :=
  if c = '"' then ['\\', '"']
  else if c = '\\' then ['\\', '\\']
  else if c = '\n' then ['\\', 'n']
  else if c = '\r' then ['\\', 'r']
  else if c = '\t' then ['\\', 't']
  else if c = '\x00' then ['\\', '0']
  else if Shown.isShown c then [c]
  else '\\' :: 'u' :: '\x7b' :: (hex c.toNat ++ ['\x7d'])

def quoted (t : Text) : Text := '"' :: (t.flatMap quotedChar ++ ['"'])

def quotedItems (items : List Text) : Text := joined [',', ' '] (items.map quoted)

def quotedList (items : List Text) : Text := '[' :: (quotedItems items ++ [']'])

def quotedSet (items : List Text) : Text := '\x7b' :: (quotedItems items ++ ['\x7d'])

end Text
end StaleStore
