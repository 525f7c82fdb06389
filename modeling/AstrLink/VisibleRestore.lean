import AstrLink.Restoring
import AstrLink.JsonTree

/-!
The frames of a response: an event that is rendered again has the restored data in place of
its first data line, and its other lines as they came.
-/
namespace AstrLink.VisibleRestore
open IPAddress StandIns

def normalizeSSELines : Text → Text
  | '\r' :: '\n' :: rest => '\n' :: normalizeSSELines rest
  | '\r' :: rest => '\n' :: normalizeSSELines rest
  | char :: rest => char :: normalizeSSELines rest
  | [] => []

def renderSSELines (data newline : Text) : Bool → List Text → Text
  | _, [] => newline
  | inserted, line :: rest =>
    if line = [] then renderSSELines data newline inserted rest
    else if "data:".toList.isPrefixOf line then
      if inserted then renderSSELines data newline inserted rest
      else "data: ".toList ++ data ++ newline ++ renderSSELines data newline true rest
    else line ++ newline ++ renderSSELines data newline inserted rest

def renderSSEData (frame data : Text) : Text :=
  renderSSELines data (if contains frame "\r\n".toList then "\r\n".toList else "\n".toList) false
    ((normalizeSSELines frame).splitOn '\n')

end AstrLink.VisibleRestore
