import FormScript.Form
import FormScript.Text.Uppercase

/-!
# Components

The text of a component that shows a form, checks what is entered against a schema and starts with
every field empty. `Component.ofForm` puts it together from lines, with one part for each field in
the schema, in the values to start with and in what is shown.
-/

namespace FormScript.Component

/-- Lines as one text. -/
def ofLines (lines : List String) : String :=
  "\n".intercalate lines

/-- The name of a form's component: the form's name with its first character in upper case, and
`Form`. -/
def name (form : String) : String :=
  match form.toList with
  | [] => "Form"
  | first :: rest => String.ofList (Text.uppercase first ++ rest) ++ "Form"

/-- What every component starts with. -/
def header : String :=
  ofLines [
    "\"use client\"",
    "",
    "import \x7b zodResolver \x7d from \"@hookform/resolvers/zod\"",
    "import \x7b useForm \x7d from \"react-hook-form\"",
    "import * as z from \"zod\"",
    "import \x7b Button \x7d from \"@/components/ui/button\"",
    "import \x7b",
    "  Form,",
    "  FormControl,",
    "  FormField,",
    "  FormItem,",
    "  FormLabel,",
    "  FormMessage,",
    "\x7d from \"@/components/ui/form\"",
    "import \x7b Input \x7d from \"@/components/ui/input\"",
    "import \x7b",
    "  Select,",
    "  SelectContent,",
    "  SelectItem,",
    "  SelectTrigger,",
    "  SelectValue,",
    "\x7d from \"@/components/ui/select\"",
    "import \x7b Checkbox \x7d from \"@/components/ui/checkbox\"",
    ""]

/-- The check of what is entered in a field. -/
def validation (field : FormField) : String :=
  match field.kind, field.properties.required with
  | .string, true | .select, true => "z.string().min(1, 'This field is required')"
  | .string, false | .select, false => "z.string()"
  | .checkbox, true => "z.boolean().refine((val) => val === true, 'This field is required')"
  | .checkbox, false => "z.boolean()"

/-- The line of the schema for a field. -/
def schemaEntry (field : FormField) : String :=
  s!"  {field.name}: {validation field}"

/-- The schema of a form. -/
def schema (fields : List FormField) : String :=
  "const formSchema = z.object(\x7b\n" ++ ",\n".intercalate (fields.map schemaEntry) ++ "\n\x7d);"

/-- The value that a field starts with. -/
def defaultEntry (field : FormField) : String :=
  match field.kind with
  | .checkbox => s!"{field.name}: false"
  | .string | .select => s!"{field.name}: \"\""

/-- The values that a form starts with. -/
def defaults (fields : List FormField) : String :=
  ",\n      ".intercalate (fields.map defaultEntry)

/-- One choice of a field. -/
def selectItem (option : String) : String :=
  s!"<SelectItem value=\"{option}\">{option}</SelectItem>"

/-- How a field is shown, inside the frame that all fields share. -/
def control (field : FormField) : List String :=
  match field.kind with
  | .string => [
    "            <FormItem>",
    s!"              <FormLabel>{field.properties.label}</FormLabel>",
    "              <FormControl>",
    s!"                <Input placeholder=\"{field.properties.placeholder}\" \x7b...field\x7d />",
    "              </FormControl>",
    "              <FormMessage />",
    "            </FormItem>"]
  | .select => [
    "            <FormItem>",
    s!"              <FormLabel>{field.properties.label}</FormLabel>",
    "              <Select onValueChange=\x7bfield.onChange\x7d defaultValue=\x7bfield.value\x7d>",
    "                <FormControl>",
    "                  <SelectTrigger>",
    s!"                    <SelectValue placeholder=\"{field.properties.placeholder}\" />",
    "                  </SelectTrigger>",
    "                </FormControl>",
    "                <SelectContent>",
    "                  " ++ ofLines (field.properties.options.map selectItem),
    "                </SelectContent>",
    "              </Select>",
    "              <FormMessage />",
    "            </FormItem>"]
  | .checkbox => [
    "            <FormItem className=\"flex flex-row items-start space-x-3 space-y-0\">",
    "              <FormControl>",
    "                <Checkbox",
    "                  checked=\x7bfield.value\x7d",
    "                  onCheckedChange=\x7bfield.onChange\x7d",
    "                />",
    "              </FormControl>",
    "              <div className=\"space-y-1 leading-none\">",
    s!"                <FormLabel>{field.properties.label}</FormLabel>",
    "              </div>",
    "            </FormItem>"]

/-- A field, on lines of its own behind an empty one. -/
def fieldText (field : FormField) : String :=
  ofLines ([
    "",
    "        <FormField",
    "          control=\x7bform.control\x7d",
    s!"          name=\"{field.name}\"",
    "          render=\x7b(\x7b field \x7d) => ("]
    ++ control field ++ [
    "          )\x7d",
    "        />"])

/-- The component of a form. -/
def ofForm (form : FormDefinition) : String :=
  ofLines [
    header,
    schema form.fields,
    "",
    s!"export function {name form.name}() \x7b",
    "  const form = useForm<z.infer<typeof formSchema>>(\x7b",
    "    resolver: zodResolver(formSchema),",
    "    defaultValues: \x7b",
    "      " ++ defaults form.fields,
    "    \x7d,",
    "  \x7d)",
    "",
    "  function onSubmit(values: z.infer<typeof formSchema>) \x7b",
    "    console.log(values)",
    "  \x7d",
    "",
    "  return (",
    "    <Form \x7b...form\x7d>",
    "      <form onSubmit=\x7bform.handleSubmit(onSubmit)\x7d className=\"space-y-8\">",
    "        " ++ ofLines (form.fields.map fieldText),
    "        <Button type=\"submit\">Submit</Button>",
    "      </form>",
    "    </Form>",
    "  )",
    "\x7d"]

end FormScript.Component
