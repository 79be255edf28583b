/-!
# TeachingCpu.Console.Help

The **help** of the console.
-/

set_option autoImplicit false

namespace TeachingCpu

/-- The lines that explain the commands of the console. -/
def Command.helpLines : List String :=
  ["Commands:",
   "  help                     Show this message",
   "  fetch                    MAR <- PC, PC <- PC+1, MDR <- memory",
   "  decode                   IR <- MDR, look up the current instruction",
   "  execute                  Run the micro-instructions of the current instruction",
   "  cycle [n]                Fetch, decode and execute n instructions (default 1)",
   "  run                      Cycle until HALT",
   "  reset                    Zero memory, registers, ALU and PSR",
   "  registers                Show every register and the ALU",
   "  flags                    Show the PSR",
   "  memory <addr> [count]    Show words of memory from a hex address",
   "  set <register> <hex>     Write a register (PC, MAR, MDR, IR, GPA, GPB)",
   "  poke <addr> <hex>        Write a word of memory",
   "  circuit add|sub|mul|div  GPA <- GPA op GPB through the ALU",
   "  instruction <id>         Make the instruction with a hex id current",
   "  quit                     Leave the console",
   "",
   "Commands may be separated with `;`."]

end TeachingCpu
