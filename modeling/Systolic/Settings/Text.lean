import Systolic.Settings.Basic
import Systolic.Toml.Quoted

/-!
# Settings as a document

The document that settings are shown as, with every field written out.
-/

namespace Systolic.Settings

/-- A number of the document has at most 63 bits. -/
def documentBound : Nat := Nat.pow 2 63

/-- All numbers of the settings. -/
def counts (s : Settings) : List Nat :=
  let c := s.chip
  [c.size, c.dataWidth, c.accWidth, c.padRows, c.accRows, c.hostRows, c.tiles, c.burstBytes, c.latency] ++
    c.layout.widths ++ [s.maxCycles]

/-- A table of the document. -/
def tableText (header : String) (entries : List (String × String)) : String :=
  s!"[{header}]\n" ++ String.join (entries.map fun (key, value) => s!"{key} = {value}\n")

/-- The document without regard to the size of its numbers. -/
def documentText (s : Settings) : String :=
  let c := s.chip
  let l := c.layout
  let quoted (text : String) : String := .ofList (Toml.Quoted.encode text.toList)
  "\n".intercalate [
    tableText "tpu" [
      ("matrix_size", toString c.size), ("data_width", toString c.dataWidth), ("acc_width", toString c.accWidth),
      ("ub_rows", toString c.padRows), ("acc_rows", toString c.accRows), ("host_rows", toString c.hostRows),
      ("weight_tiles", toString c.tiles), ("burst_bytes", toString c.burstBytes), ("dram_latency", toString c.latency),
      ("hazard_policy", quoted c.policy.name)],
    tableText "tpu.layout" [
      ("opcode_bytes", toString l.opcode), ("flags_bytes", toString l.flags), ("length_bytes", toString l.length),
      ("host_addr_bytes", toString l.memAddr), ("ub_addr_bytes", toString l.padAddr)],
    tableText "simulation" [
      ("quiet", toString s.quiet), ("step_mode", toString s.stepMode), ("trace_file", quoted s.traceFile),
      ("max_cycles", toString s.maxCycles)]]

/-- The document, if its numbers fit. -/
def document? (s : Settings) : Option String :=
  if s.counts.all (· < documentBound) then some s.documentText else none

end Systolic.Settings
